import Wiretap.Bytes
import Wiretap.Number.Digits

/-!
# Options

The command line, read from left to right. An option that takes a value takes
it behind an equals sign or as the next argument; a single letter takes it
directly behind the letter too. Help and version end the reading where they
stand, and so does the first fault: an unknown option, a stray argument, a
missing or unreadable value, a value for a switch, or an option given twice.
-/

namespace Wiretap.Command

structure Options where
  host : Option String
  port : Option Nat
  proxy : Option String
  /-- Entries in the order given; the option may stand more than once. -/
  intercept : List String
  certDir : Option String
  printRoot : Bool
  logLevel : Option String
  deriving DecidableEq, Repr, Inhabited

/-- An option that takes a value. -/
inductive Setting where
  | host
  | port
  | proxy
  | intercept
  | certDir
  | logLevel
  deriving DecidableEq, Repr, Inhabited

/-- An option that takes none. -/
inductive Switch where
  | printRoot
  | help
  | version
  deriving DecidableEq, Repr, Inhabited

/-- What the command line asks for. -/
inductive Request where
  | run (options : Options)
  | help
  | version
  /-- It cannot be read. -/
  | misuse
  deriving DecidableEq, Repr, Inhabited

namespace Options

def none : Options := ⟨.none, .none, .none, [], .none, false, .none⟩

/-- A number with or without a sign, from 0 to 65535. -/
def port? (value : List Char) : Option Nat :=
  match value with
  | '-' :: digits => if Number.word16? digits = some 0 && digits.head? != some '+' then some 0 else .none
  | _ => Number.word16? value

/-- Sets a value that may be given once. -/
def once {α : Type} (old : Option α) (new : α) : Option (Option α) :=
  if old.isSome then .none else some (some new)

/-- The options with one setting more, unless it cannot be read or is there already. -/
def set (o : Options) (s : Setting) (value : List Char) : Option Options :=
  let text := String.ofList value
  match s with
  | .host => (once o.host text).map fun v => { o with host := v }
  | .port => do
    let n ← port? value
    let v ← once o.port n
    return { o with port := v }
  | .proxy => (once o.proxy text).map fun v => { o with proxy := v }
  | .intercept =>
    some { o with intercept := o.intercept ++ (Bytes.splitOn ',' value).map String.ofList }
  | .certDir =>
    if value.isEmpty then .none else (once o.certDir text).map fun v => { o with certDir := v }
  | .logLevel => (once o.logLevel text).map fun v => { o with logLevel := v }

def setting? (name : List Char) : Option Setting :=
  match String.ofList name with
  | "host" => some .host
  | "port" => some .port
  | "proxy" => some .proxy
  | "intercept" => some .intercept
  | "cert-dir" => some .certDir
  | "log-level" => some .logLevel
  | _ => .none

def switch? (name : List Char) : Option Switch :=
  match String.ofList name with
  | "print-ca" => some .printRoot
  | "help" => some .help
  | "version" => some .version
  | _ => .none

def settingOfLetter? : Char → Option Setting
  | 'p' => some .port
  | 'i' => some .intercept
  | _ => .none

def switchOfLetter? : Char → Option Switch
  | 'h' => some .help
  | 'V' => some .version
  | _ => .none

/-- A lone hyphen is a value; anything else behind a hyphen is an option. -/
def isValue : List Char → Bool
  | '-' :: _ :: _ => false
  | _ => true

/-- An argument with its parts told apart. -/
inductive Arg where
  /-- Nothing but stray arguments may follow. -/
  | terminator
  | switch (switch : Switch)
  /-- A setting with the value attached to it, if one is. -/
  | setting (setting : Setting) (attached : Option (List Char))
  | unknown
  deriving DecidableEq, Repr, Inhabited

def Arg.ofLong (body : List Char) : Arg :=
  let name := body.takeWhile (· != '=')
  let attached := match body.dropWhile (· != '=') with
    | [] => Option.none
    | _ :: value => some value
  match setting? name, switch? name, attached with
  | some s, _, attached => .setting s attached
  | _, some s, .none => .switch s
  | _, _, _ => .unknown

def Arg.ofLetter (letter : Char) (rest : List Char) : Arg :=
  match settingOfLetter? letter, switchOfLetter? letter, rest with
  | some s, _, [] => .setting s .none
  | some s, _, '=' :: value => .setting s (some value)
  | some s, _, value => .setting s (some value)
  | _, some s, _ => .switch s
  | _, _, _ => .unknown

def Arg.of : List Char → Arg
  | ['-', '-'] => .terminator
  | '-' :: '-' :: body => .ofLong body
  | '-' :: letter :: rest => .ofLetter letter rest
  | _ => .unknown

/-- Reads arguments behind options read so far. -/
def readFrom (o : Options) : List String → Request
  | [] => .run o
  | arg :: rest =>
    match Arg.of arg.toList with
    | .unknown => .misuse
    | .terminator => if rest.isEmpty then .run o else .misuse
    | .switch .help => .help
    | .switch .version => .version
    | .switch .printRoot =>
      if o.printRoot then .misuse else readFrom { o with printRoot := true } rest
    | .setting s (some value) =>
      match o.set s value with
      | some o => readFrom o rest
      | .none => .misuse
    | .setting s .none =>
      match rest with
      | [] => .misuse
      | value :: rest =>
        if isValue value.toList then
          match o.set s value.toList with
          | some o => readFrom o rest
          | .none => .misuse
        else .misuse

def read (args : List String) : Request := readFrom none args

end Options

end Wiretap.Command
