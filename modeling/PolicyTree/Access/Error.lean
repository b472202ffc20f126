import PolicyTree.Tree.Error

namespace PolicyTree

inductive EntryError where
  | emptyPrincipal
  | noPrivileges (principal : String)
  | abstractPrivilege (name : String)
  | notText (restriction : String)
  | unsupportedGlob (found : Char) (glob : String)
  | missingProperty (path name : String)
deriving DecidableEq, Repr

inductive LifecycleError where
  | evaluatorClosed
  | providerNotInitialized
  | providerClosed
deriving DecidableEq, Repr

inductive LookupError where
  | nothingAt (path : String)
  | noAncestor (path : String)
  | noOwner (path : String)
deriving DecidableEq, Repr

inductive PrivilegeError where
  | emptyName
  | alreadyRegistered (name : String)
  | abstractAggregate (name : String)
  | noBitsLeft
  | emptyAggregate (name : String)
deriving DecidableEq, Repr

inductive PolicyError where
  | alreadyInitialized
  | rootHasPolicy
  | foreignPolicy (owner path : String)
  | noPolicy (path : String)
  | policyContent (path : String)
deriving DecidableEq, Repr

inductive SettingsError where
  | unreadable
  | unwritable
  | zeroCapacity (name : String)
  | emptyEveryone
deriving DecidableEq, Repr

inductive AccessError where
  | invalidEntry (cause : EntryError)
  | tree (cause : TreeError)
  | notInitialized (cause : LifecycleError)
  | itemNotFound (cause : LookupError)
  | unknownPrivilege (name : String)
  | invalidPrivilege (cause : PrivilegeError)
  | policy (cause : PolicyError)
  | settings (cause : SettingsError)
deriving DecidableEq, Repr

def EntryError.message : EntryError → String
  | emptyPrincipal => "principal name is empty"
  | noPrivileges principal => "no privileges for principal " ++ principal
  | abstractPrivilege name => "abstract privilege " ++ name ++ " cannot be used in an entry"
  | notText restriction => restriction ++ " must be a string"
  | unsupportedGlob found glob =>
    "unsupported character " ++ Text.Quoted.char found ++ " in glob " ++ Text.Quoted.text glob
  | missingProperty path name => path ++ " has no " ++ name

def LifecycleError.message : LifecycleError → String
  | evaluatorClosed => "compiled permissions have been closed"
  | providerNotInitialized => "access control provider not initialized"
  | providerClosed => "access control provider has been closed"

def LookupError.message : LookupError → String
  | nothingAt path => path
  | noAncestor path => "no existing ancestor of " ++ path
  | noOwner path => "access control item " ++ path ++ " has no owner"

def PrivilegeError.message : PrivilegeError → String
  | emptyName => "empty privilege name"
  | alreadyRegistered name => name ++ " already registered"
  | abstractAggregate name => "abstract privilege " ++ name ++ " cannot aggregate"
  | noBitsLeft => "no privilege bits left for custom privileges"
  | emptyAggregate name => "aggregate " ++ name ++ " has no concrete members"

def PolicyError.message : PolicyError → String
  | alreadyInitialized => "access control provider already initialized"
  | rootHasPolicy => "root already has a policy"
  | foreignPolicy owner path => "policy of " ++ owner ++ " cannot be set on " ++ path
  | noPolicy path => "no policy to remove at " ++ path
  | policyContent path => path ++ " is access control content"

def SettingsError.message : SettingsError → String
  | unreadable => "Failed to parse TOML"
  | unwritable => "Failed to serialize to TOML"
  | zeroCapacity name => name ++ " must be greater than zero"
  | emptyEveryone => "everyone_principal must not be empty"

def AccessError.message (label : NodeId → String) : AccessError → String
  | invalidEntry cause => "Invalid access control entry: " ++ cause.message
  | tree cause => "Repository access failed: " ++ cause.message label
  | notInitialized cause => "Not initialized: " ++ cause.message
  | itemNotFound cause => "Item not found: " ++ cause.message
  | unknownPrivilege name => "Unknown privilege: " ++ name
  | invalidPrivilege cause => "Invalid privilege definition: " ++ cause.message
  | policy cause => "Access control error: " ++ cause.message
  | settings cause => "Configuration error: " ++ cause.message

-- An error of the tree is an error of whoever asked the tree.
instance : MonadLift (Except TreeError) (Except AccessError) := ⟨fun x => x.mapError .tree⟩

end PolicyTree
