import Wiretap.Cert.Registry

/-!
# Upkeep

A certificate directory in use, one thing after another: registries are opened on it, each in place
of the one before, hosts are asked for, and in between others remove what they like.
-/

namespace Wiretap.Cert

inductive Deed where
  | open
  | ensure (host : String)
  /-- Others remove a file or folder, if it is there. -/
  | remove (name : String)
  deriving DecidableEq, Repr

inductive Outcome where
  /-- A registry of this authority is there to be asked. -/
  | opened (authority : Authority)
  | refused (e : Error)
  | answered (host : String) (record : Record)
  | denied (host : String) (e : Error)
  deriving DecidableEq

structure Upkeep where
  vault : Vault
  registry : Option Registry
  deriving DecidableEq

namespace Upkeep

/-- Nothing has been made yet. -/
def start (path : String) : Upkeep := ⟨.empty path, none⟩

def answer (host : String) : Except Error Record → Outcome
  | .ok record => .answered host record
  | .error e => .denied host e

/-- One deed. Nobody can be asked before the first opening. -/
def act (u : Upkeep) : Deed → List Outcome × Upkeep
  | .open =>
    match Registry.ofVault u.vault with
    | (.ok r, v) => ([.opened r.authority], ⟨v, some r⟩)
    | (.error e, v) => ([.refused e], ⟨v, none⟩)
  | .ensure host =>
    match u.registry with
    | none => ([], u)
    | some r =>
      let (result, r, v) := r.ensure u.vault host
      ([answer host result], ⟨v, some r⟩)
  | .remove name => ([], { u with vault := (u.vault.remove name).getD u.vault })

/-- All outcomes of some deeds, and what they leave behind. -/
def run (u : Upkeep) : List Deed → List Outcome × Upkeep
  | [] => ([], u)
  | deed :: deeds =>
    let (seen, u) := u.act deed
    let (more, u) := run u deeds
    (seen ++ more, u)

end Upkeep

end Wiretap.Cert
