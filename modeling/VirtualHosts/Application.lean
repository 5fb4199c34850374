/-
An application: everything that is declared under a name.  A lookup by name
finds the first entry declared under it.
-/

import VirtualHosts.BuildSteps
import VirtualHosts.Declaration
import VirtualHosts.Document

namespace VirtualHosts

/-- An engine or a database: a name and options that only the application reads. -/
structure Named where
  name : String
  options : Options

structure Application (α : Type) where
  builders : List Builder := []
  databases : List Named := []
  engines : List Named := []
  hosts : List (Host α) := []

namespace Application

variable {α : Type}

def requireName (name : String) : Except DeclarationError Unit :=
  if Text.isBlankText name then .error .missingName else .ok ()

def addBuilder (app : Application α) (builder : Builder) :
    Except DeclarationError (Application α) := do
  requireName builder.name
  return { app with builders := app.builders ++ [builder] }

def addDatabase (app : Application α) (database : Named) :
    Except DeclarationError (Application α) := do
  requireName database.name
  return { app with databases := app.databases ++ [database] }

def addEngine (app : Application α) (engine : Named) :
    Except DeclarationError (Application α) := do
  requireName engine.name
  return { app with engines := app.engines ++ [engine] }

def addHost (app : Application α) (host : Host α) : Application α :=
  { app with hosts := app.hosts ++ [host] }

def declareHost (app : Application α) (hostname : String) (options : HostOptions)
    (body : List (Declaration α)) :
    Except DeclarationError (Application α × List Outcome) := do
  let (host, outcomes) := (← Host.declare hostname options).declareAll body
  return (app.addHost host, outcomes)

def builderNamed? (app : Application α) (name : String) : Option Builder :=
  app.builders.find? (·.name == name)

def databaseNamed? (app : Application α) (name : String) : Option Named :=
  app.databases.find? (·.name == name)

def engineNamed? (app : Application α) (name : String) : Option Named :=
  app.engines.find? (·.name == name)

def hostNamed? (app : Application α) (hostname : String) : Option (Host α) :=
  app.hosts.find? (·.hostname == hostname)

end Application

end VirtualHosts
