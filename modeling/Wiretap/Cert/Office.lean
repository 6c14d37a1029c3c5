import Wiretap.Cert.Errand

/-!
# The office

A certificate directory over any number of openings, with many calls for records under way
together. Calls for one host share one errand, whose record is kept if it succeeds. A registry is
used until the next opening begins, which ends whatever is under way, the opening before it too.
-/

namespace Wiretap.Cert

/-- Most records that are kept in memory. -/
def Registry.capacity : Nat := 10000

namespace Registry

/-- The record of the pair of a host. -/
def recordOf (r : Registry) (host : String) (pair : Certificate × Key) : Record :=
  ⟨host, pair.1, pair.2, r.authority.certificate⟩

def keep (r : Registry) (record : Record) : Registry := { r with records := record :: r.records }

def drop (r : Registry) (host : String) : Registry :=
  { r with records := r.records.filter (·.host != host) }

/-- What a call is told of an errand that failed. -/
def failure (host : String) (e : Error) : Error := .certificate (host ++ ": " ++ e.message)

end Registry

/-- The errand for a host, and how many calls wait for it. -/
structure Flight where
  callers : Nat
  errand : Errand (Certificate × Key)

inductive Desk where
  | closed
  | opening (errand : Errand Authority)
  | serving (registry : Registry) (flights : String → Option Flight)

structure Office where
  vault : Vault
  desk : Desk

inductive Move where
  /-- A registry is opened, in place of any before it. -/
  | open
  /-- One operation of the opening. -/
  | advance (p : Progress)
  | call (host : String)
  /-- One operation of the errand for a host. -/
  | work (host : String) (p : Progress)
  /-- A record is let go of for want of room. -/
  | evict (host : String)

namespace Office

/-- Nobody has opened the directory yet. -/
def start (v : Vault) : Office := ⟨v, .closed⟩

def serving (v : Vault) (r : Registry) (flights : String → Option Flight) : Office :=
  ⟨v, .serving r flights⟩

def setFlight (flights : String → Option Flight) (host : String) (flight : Option Flight) :
    String → Option Flight := fun h => if h = host then flight else flights h

/-- What comes of one operation of the opening. -/
def advanced (errand : Errand Authority) (v : Vault) : List Event × Office :=
  match errand with
  | .done (.ok authority) => ([.opened], serving v ⟨authority, []⟩ fun _ => none)
  | .done (.error e) => ([.refused e], ⟨v, .closed⟩)
  | errand => ([], ⟨v, .opening errand⟩)

def called (v : Vault) (r : Registry) (flights : String → Option Flight) (host : String) :
    List Event × Office :=
  if isValidHost host then
    match r.find? host, flights host with
    | some record, _ => ([.answered host record], serving v r flights)
    | none, some flight =>
      ([], serving v r (setFlight flights host (some { flight with callers := flight.callers + 1 })))
    | none, none =>
      ([], serving v r (setFlight flights host (some ⟨1, Registry.fetching r.authority host⟩)))
  else ([.denied host (Registry.invalidHost host)], serving v r flights)

/-- What comes of one operation of the errand for a host. -/
def worked (v : Vault) (r : Registry) (flights : String → Option Flight) (host : String)
    (flight : Flight) : List Event × Office :=
  match flight.errand with
  | .done (.ok pair) =>
    let record := r.recordOf host pair
    (.kept record :: List.replicate flight.callers (.answered host record),
      serving v (r.keep record) (setFlight flights host none))
  | .done (.error e) =>
    (List.replicate flight.callers (.denied host (Registry.failure host e)),
      serving v r (setFlight flights host none))
  | _ => ([], serving v r (setFlight flights host (some flight)))

/-- One move. A move that cannot be made changes nothing. -/
def turn (o : Office) (move : Move) : List Event × Office :=
  match move, o.desk with
  | .open, _ => ([], ⟨o.vault, .opening Authority.opening⟩)
  | .advance p, .opening errand =>
    let (seen, errand, v) := errand.step Authority.ownName p o.vault
    let (more, o) := advanced errand v
    (seen ++ more, o)
  | .call host, .serving r flights => called o.vault r flights host
  | .work host p, .serving r flights =>
    match flights host with
    | none => ([], o)
    | some flight =>
      let (seen, errand, v) := flight.errand.step host p o.vault
      let (more, o) := worked v r flights host { flight with errand }
      (seen ++ more, o)
  | .evict host, .serving r flights =>
    if Registry.capacity < r.records.length then ([], serving o.vault (r.drop host) flights)
    else ([], o)
  | _, _ => ([], o)

/-- All that is seen of some moves, and the office they leave behind. -/
def run (o : Office) : List Move → List Event × Office
  | [] => ([], o)
  | move :: moves =>
    let (seen, o) := o.turn move
    let (more, o) := run o moves
    (seen ++ more, o)

end Office

end Wiretap.Cert
