import Wiretap.Cert.Certificate
import Wiretap.Number.Digits
import Wiretap.Text.Base64

/-!
# Certificates as blocks of text

A block has a line with its label before and behind it, and between them the
terms of the certificate in Base64, in lines of 64 characters.
-/

namespace Wiretap.Cert

def number (n : Nat) : String := String.ofList (Number.decimal n)

def AltName.text : AltName → String
  | dns name => "DNS:" ++ name
  | ip address => "IP:" ++ String.ofList (Text.base64 address.octets)

/-- What a certificate says, one term a line. -/
def Certificate.terms (c : Certificate) : List String :=
  ["subject " ++ c.subject.text, "issuer " ++ c.issuer.text, "key " ++ number c.key,
    "signer " ++ number c.signer] ++ c.names.map AltName.text

def lineLength : Nat := 64

/-- A text in lines of `lineLength` characters. -/
def wrap (cs : List Char) : List (List Char) :=
  if _h : cs = [] then []
  else cs.take lineLength :: wrap (cs.drop lineLength)
termination_by cs.length
decreasing_by
  have : 0 < cs.length := List.length_pos_iff.mpr _h
  simp only [List.length_drop, lineLength]
  omega

/-- A certificate as a block of text. -/
def Certificate.pem (c : Certificate) : String :=
  let body := wrap (Text.base64 (Utf8.encode ("\n".intercalate c.terms)))
  "\n".intercalate
    (["-----BEGIN CERTIFICATE-----"] ++ body.map String.ofList ++ ["-----END CERTIFICATE-----", ""])

end Wiretap.Cert
