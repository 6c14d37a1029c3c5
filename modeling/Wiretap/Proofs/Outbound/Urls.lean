import Wiretap.Proofs.Outbound.Requests
import Wiretap.Proofs.Text.Percent

/-!
# Credentials in the URL of a proxy

A URL is put together from a user name and perhaps a password, encoded with percent signs, and a
host, a port and whatever follows. What is encoded holds no delimiter, so that the URL is taken
apart where it was put together: at its last `@`, at the first colon before it, and at the last
colon behind it. Whatever characters the user name and the password are made of, they are what the
proxy is told (`parse_url`).
-/

namespace Wiretap

/-! ## Parts of a URI -/

namespace Uri

theorem ofScheme_eq_ok {scheme cs : List Char} {uri : Uri} (h : ofScheme scheme cs = .ok uri) :
    uri.scheme = some (String.ofList scheme) ∧
      uri.authority = String.ofList (cs.takeWhile (!endsAuthority ·)) := by
  unfold ofScheme at h
  split at h
  · cases h
  split at h
  · cases h
  rename_i authority rest htake
  have hauthority : authority = cs.takeWhile (!endsAuthority ·) := by
    unfold takeAuthority at htake
    simp only at htake
    split at htake
    · cases htake
    split at htake
    · cases htake
      rfl
    · cases htake
  split at h
  · cases h
  · rw [← hauthority]
    cases hpath : pathAndQuery rest with
    | error e => rw [hpath] at h; cases h
    | ok parts => rw [hpath] at h; cases h; exact ⟨rfl, rfl⟩

/-- A text that starts with a scheme is taken apart behind it. -/
theorem ofScheme_of_parseChars {cs scheme rest : List Char} {uri : Uri}
    (htake : takeScheme cs = .ok (some (scheme, rest))) (hfront : cs.head? ≠ some '/')
    (hlong : 1 < cs.length) (h : parseChars cs = .ok uri) : ofScheme scheme rest = .ok uri := by
  unfold parseChars at h
  split at h
  · cases h
  split at h
  · exact absurd hlong (by decide)
  · exact absurd hlong (by decide)
  · exact absurd rfl hfront
  · exact absurd hlong (Nat.lt_irrefl 1)
  · rwa [htake] at h

end Uri

namespace Proxy

/-- The URL of a proxy in its parts. The user name and the password are as they are encoded, and
the host is without its brackets. -/
structure Url where
  protocol : ProxyProtocol
  user : List Char
  password : Option (List Char)
  host : List Char
  bracketed : Bool
  port : Option UInt16
  /-- A path, a query and a fragment, if there are any. -/
  tail : List Char
  deriving DecidableEq, Repr

namespace Url

def scheme : ProxyProtocol → List Char
  | .http => ['h', 't', 't', 'p']
  | .socks5 false => ['s', 'o', 'c', 'k', 's', '5']
  | .socks5 true => ['s', 'o', 'c', 'k', 's', '5', 'h']

def userInfo (u : Url) : List Char := u.user ++ u.password.elim [] (':' :: ·)

def hostText (u : Url) : List Char := if u.bracketed then '[' :: (u.host ++ [']']) else u.host

def portText (u : Url) : List Char := u.port.elim [] fun port => ':' :: Number.decimal port.toNat

def authority (u : Url) : List Char := u.userInfo ++ '@' :: (u.hostText ++ u.portText)

def chars (u : Url) : List Char :=
  scheme u.protocol ++ ':' :: '/' :: '/' :: (u.authority ++ u.tail)

def text (u : Url) : String := String.ofList u.chars

/-- A URL with this user and this password. In the host no delimiter stands but, in brackets, the
colon, and what follows the authority begins with one of the delimiters that end it. -/
structure Names (u : Url) (user : String) (password : Option String) : Prop where
  user : Text.Escapes (Utf8.encode user) u.user
  password : Option.Rel (fun p cs => Text.Escapes (Utf8.encode p) cs) password u.password
  host : ∀ c ∈ "/?#[]@".toList, c ∉ u.host
  colon : u.bracketed = false → ':' ∉ u.host
  tail : ∀ c ∈ u.tail.head?, Uri.endsAuthority c = true

section

variable {u : Url} {user : String} {password : Option String} (h : u.Names user password)

include h

/-! ## Taking it apart -/

theorem notMem_userInfo {c : Char} (hfree : Text.isUnreserved c = false) (hpercent : c ≠ '%')
    (hcolon : c ≠ ':') : c ∉ u.userInfo := by
  rw [userInfo, List.mem_append, not_or]
  refine ⟨Text.notMem_escapes h.user hfree hpercent, ?_⟩
  cases hp : u.password with
  | none => exact List.not_mem_nil
  | some cs =>
    have hrel := h.password
    rw [hp] at hrel
    cases hrel with
    | some hrel =>
      rw [Option.elim_some, List.mem_cons, not_or]
      exact ⟨hcolon, Text.notMem_escapes hrel hfree hpercent⟩

omit h in
theorem notMem_portText {c : Char} (hdigit : c.isDigit = false) (hcolon : c ≠ ':') :
    c ∉ u.portText := by
  unfold portText
  cases u.port with
  | none => exact List.not_mem_nil
  | some port =>
    rw [Option.elim_some, List.mem_cons, not_or]
    exact ⟨hcolon, fun hmem => by simp [Number.isDigit_decimal hmem] at hdigit⟩

omit h in
theorem notMem_hostText {c : Char} (hhost : c ∉ u.host) (hopen : c ≠ '[') (hclose : c ≠ ']') :
    c ∉ u.hostText := by
  unfold hostText
  split
  · simp only [List.mem_cons, List.mem_append, List.not_mem_nil, or_false, not_or]
    exact ⟨hopen, hhost, hclose⟩
  · exact hhost

theorem at_notMem : '@' ∉ u.hostText ++ u.portText := by
  rw [List.mem_append, not_or]
  exact ⟨notMem_hostText (h.host '@' (by decide)) (by decide) (by decide),
    notMem_portText (by decide) (by decide)⟩

theorem notMem_authority {c : Char} (hhost : c ∈ "/?#[]@".toList)
    (hfree : Text.isUnreserved c = false) (hdigit : c.isDigit = false)
    (hother : c ∉ "%:[]@".toList) : c ∉ u.authority := by
  have hne {d : Char} (hd : d ∈ "%:[]@".toList) : c ≠ d := (ne_of_mem_of_not_mem hd hother).symm
  rw [authority, List.mem_append, List.mem_cons, List.mem_append]
  simp only [not_or]
  exact ⟨notMem_userInfo h hfree (hne (by decide)) (hne (by decide)), hne (by decide),
    notMem_hostText (h.host c hhost) (hne (by decide)) (hne (by decide)),
    notMem_portText hdigit (hne (by decide))⟩

theorem takeWhile_authority :
    (u.authority ++ u.tail).takeWhile (!Uri.endsAuthority ·) = u.authority := by
  have hnone : ∀ c ∈ u.authority, (!Uri.endsAuthority c) = true := by
    intro c hc
    rw [Bool.not_eq_true', Bool.eq_false_iff]
    intro hends
    have hcases : c = '/' ∨ c = '?' ∨ c = '#' := by
      simpa [Uri.endsAuthority, or_assoc] using hends
    rcases hcases with rfl | rfl | rfl <;>
      exact notMem_authority h (by decide) (by decide) (by decide) (by decide) hc
  rw [List.takeWhile_append_of_pos hnone]
  cases htail : u.tail with
  | nil => simp
  | cons c rest =>
    have hends := h.tail c (by rw [htail]; rfl)
    rw [List.takeWhile_cons_of_neg (by simp [hends]), List.append_nil]

omit h in
theorem takeScheme_chars :
    Uri.takeScheme u.chars = .ok (some (scheme u.protocol, u.authority ++ u.tail)) := by
  unfold chars
  match u.protocol with
  | .http => rfl
  | .socks5 false => rfl
  | .socks5 true => rfl

omit h in
theorem chars_front : u.chars.head? ≠ some '/' ∧ 1 < u.chars.length := by
  unfold chars
  match u.protocol with
  | .http => simp [scheme]
  | .socks5 false => simp [scheme]
  | .socks5 true => simp [scheme]

/-- The URI of a URL has its scheme and its authority. -/
theorem uri_of_parse {uri : Uri} (hparse : Uri.parse u.text = .ok uri) :
    uri.scheme = some (String.ofList (scheme u.protocol)) ∧
      uri.authority = String.ofList u.authority := by
  rw [Uri.parse, text, String.toList_ofList] at hparse
  have hrest := Uri.ofScheme_of_parseChars takeScheme_chars chars_front.1 chars_front.2 hparse
  have hparts := Uri.ofScheme_eq_ok hrest
  rwa [takeWhile_authority h] at hparts

theorem userInfo?_eq {uri : Uri} (huri : uri.authority = String.ofList u.authority) :
    uri.userInfo? = some u.userInfo := by
  rw [Uri.userInfo?, huri, String.toList_ofList, authority, Uri.beforeLast?_append (at_notMem h)]

theorem host?_eq {uri : Uri} (huri : uri.authority = String.ofList u.authority) :
    uri.host? = some u.hostText := by
  have hne : uri.authority.isEmpty = false := by
    rw [huri, authority]
    simp
  unfold Uri.host?
  simp only [hne, Bool.false_eq_true, if_false]
  rw [huri, String.toList_ofList, authority, Uri.behindLast_append (at_notMem h)]
  cases hbracketed : u.bracketed with
  | true =>
    have hclose : ']' ∉ '[' :: u.host := by
      rw [List.mem_cons, not_or]
      exact ⟨by decide, h.host ']' (by decide)⟩
    have htext : u.hostText ++ u.portText = '[' :: u.host ++ ']' :: u.portText := by
      simp [hostText, hbracketed]
    rw [htext, List.cons_append]
    simp only
    rw [← List.cons_append, Bytes.takeWhile_of_notMem hclose]
    simp [hostText, hbracketed]
  | false =>
    have hcolon := h.colon hbracketed
    have htext : u.hostText = u.host := by simp [hostText, hbracketed]
    have hport : (u.host ++ u.portText).takeWhile (· != ':') = u.host := by
      unfold portText
      cases u.port with
      | none =>
        rw [Option.elim_none, List.append_nil, List.takeWhile_eq_self_iff]
        exact Bytes.bne_of_notMem hcolon
      | some port => exact Bytes.takeWhile_of_notMem hcolon _
    rw [htext]
    split
    · rename_i rest hopen
      have hmem : '[' ∈ u.host ++ u.portText := hopen ▸ List.mem_cons_self
      rcases List.mem_append.mp hmem with hmem | hmem
      · exact absurd hmem (h.host '[' (by decide))
      · exact absurd hmem (notMem_portText (by decide) (by decide))
    · rw [hport]

theorem unbracket_hostText : Net.unbracket u.hostText = u.host := by
  have hfront : u.host.head? ≠ some '[' := fun hhead =>
    h.host '[' (by decide) (List.mem_of_head? hhead)
  have hback : u.host.getLast? ≠ some ']' := fun hlast =>
    h.host ']' (by decide) (List.mem_of_getLast? hlast)
  unfold hostText
  split
  · exact Net.unbracket_brackets hfront hback
  · exact Net.unbracket_of_bare hfront hback

/-- Without a port, what stands behind the last colon is none: there is an `@` or a bracket in
it. -/
theorem not_word16?_behindLast (hport : u.port = none) {front back : List Char}
    (htext : u.authority = front ++ ':' :: back) : Number.word16? back = none := by
  rw [Option.eq_none_iff_forall_ne_some]
  intro n hn
  have hat : '@' ∉ back := Number.notMem_of_unsigned? (by decide) (by decide) hn
  have hclose : ']' ∉ back := Number.notMem_of_unsigned? (by decide) (by decide) hn
  have hnone : u.portText = [] := by rw [portText, hport, Option.elim_none]
  rw [authority, hnone, List.append_nil] at htext
  cases hbracketed : u.bracketed with
  | true =>
    have hconcat : u.userInfo ++ '@' :: u.hostText =
        (u.userInfo ++ '@' :: '[' :: u.host) ++ [']'] := by
      simp [hostText, hbracketed]
    have hmem : ']' ∈ ':' :: back := by
      refine List.mem_of_getLast? ?_
      rw [← List.getLast?_append_cons front, ← htext, hconcat, List.getLast?_concat]
    exact hclose ((List.mem_cons.mp hmem).resolve_left (by decide))
  | false =>
    have hcolon : ':' ∉ '@' :: u.hostText := by
      rw [hostText, hbracketed]
      exact fun hmem => h.colon hbracketed ((List.mem_cons.mp hmem).resolve_left (by decide))
    rcases List.append_eq_append_iff.mp htext with ⟨more, -, hmore⟩ | ⟨more, -, hmore⟩
    · exact hcolon (hmore ▸ List.mem_append_right _ List.mem_cons_self)
    · cases more with
      | nil => cases hmore
      | cons c more =>
        cases hmore
        exact hat (List.mem_append_right _ List.mem_cons_self)

theorem port?_eq {uri : Uri} (huri : uri.authority = String.ofList u.authority) :
    uri.port? = u.port.map UInt16.toNat := by
  rw [Uri.port?, huri, String.toList_ofList]
  cases hport : u.port with
  | none =>
    rcases Uri.last_cases ':' u.authority with ⟨-, hnone⟩ | ⟨front, hsome, htext, -⟩
    · rw [hnone]
      rfl
    · rw [hsome]
      exact not_word16?_behindLast h hport htext
  | some port =>
    have htext : u.authority = (u.userInfo ++ '@' :: u.hostText) ++ ':' ::
        Number.decimal port.toNat := by
      simp [authority, portText, hport]
    have hcolon := Net.colon_notMem_decimal port.toNat
    have hword : Number.word16? (Number.decimal port.toNat) = some port.toNat :=
      Number.unsigned?_decimal (Nat.le_of_lt_succ port.toNat_lt)
    rw [htext, Uri.beforeLast?_append hcolon, Uri.behindLast_append hcolon]
    exact hword

theorem ofUserInfo_eq : (Credentials.ofUserInfo u.userInfo).user = user ∧
    (Credentials.ofUserInfo u.userInfo).password.getD "" = password.getD "" := by
  have hcolon : ':' ∉ u.user := Text.notMem_escapes h.user (by decide) (by decide)
  have huser := Text.percentDecoded_of_escapes h.user
  have hrel := h.password
  unfold Credentials.ofUserInfo userInfo
  cases hp : u.password with
  | none =>
    rw [hp] at hrel
    cases hrel
    have hne := Bytes.bne_of_notMem hcolon
    simp only [Option.elim_none, List.append_nil, List.takeWhile_eq_self_iff.mpr hne,
      List.dropWhile_eq_nil_iff.mpr hne, huser]
    exact ⟨trivial, rfl⟩
  | some cs =>
    rw [hp] at hrel
    cases hrel with
    | @some p _ hrel =>
      have hpassword := Text.percentDecoded_of_escapes hrel
      simp only [Option.elim_some, Bytes.takeWhile_of_notMem hcolon,
        Bytes.dropWhile_of_notMem hcolon, huser, List.drop_succ_cons, List.drop_zero]
      refine ⟨trivial, ?_⟩
      cases cs with
      | nil => rw [← hpassword]; rfl
      | cons c cs => exact hpassword

/-- A URL that is accepted gives the proxy that was put into it. -/
theorem exists_parse {uri : Uri} (haccepted : Uri.parse u.text = .ok uri) :
    ∃ p, Proxy.parse u.text = .ok p ∧ p.protocol = u.protocol ∧ p.host = String.ofList u.host ∧
      p.port = (u.port.map UInt16.toNat).getD (defaultPort u.protocol) ∧
      p.credentials = some (Credentials.ofUserInfo u.userInfo) := by
  obtain ⟨hscheme, huri⟩ := uri_of_parse h haccepted
  have hprotocol : protocol? uri.scheme = some u.protocol := by
    rw [hscheme]
    match u.protocol with
    | .http => rfl
    | .socks5 false => rfl
    | .socks5 true => rfl
  refine ⟨⟨uri, String.ofList u.host, _, u.protocol, some (Credentials.ofUserInfo u.userInfo)⟩,
    ?_, rfl, rfl, rfl, rfl⟩
  unfold Proxy.parse
  simp only [haccepted, host?_eq h huri, hprotocol, port?_eq h huri, userInfo?_eq h huri,
    unbracket_hostText h, Option.map_some]
  rfl

end

end Url

/-! ## What the proxy is told -/

theorem establish_sent_http (resolve : Resolver) {p : Proxy} (hhttp : p.protocol = .http)
    (host : String) (port : Nat) (w : Wire) : (p.establish resolve host port w).2.sent =
      w.sent ++ httpRequest p.credentials (Net.hostPort host port) := by
  obtain ⟨said, hsent, hsaid⟩ := tells_establishHttp p.credentials host port w
  unfold establish
  rw [hhttp, ← hsaid]
  exact hsent

/-- Of any user and password that are put into the URL of a proxy, and of its host and its port,
the proxy is read again. In HTTP every request has the two in Base64, in SOCKS5 they are in the
packet that answers a proxy that asks for a password. No password is an empty one. -/
theorem parse_url {u : Url} {user : String} {password : Option String} (h : u.Names user password)
    {uri : Uri} (haccepted : Uri.parse u.text = .ok uri) :
    ∃ p c, Proxy.parse u.text = .ok p ∧ p.protocol = u.protocol ∧
      p.host = String.ofList u.host ∧
      p.port = (u.port.map UInt16.toNat).getD (defaultPort u.protocol) ∧
      p.credentials = some c ∧ c.user = user ∧ c.password.getD "" = password.getD "" ∧
      (u.protocol = .http → ∃ token,
        Text.base64Decode? token.toList =
          some (Utf8.encode (user ++ ":" ++ password.getD "")) ∧
        ∀ resolve host port w, (p.establish resolve host port w).2.sent = w.sent ++
          (requestLines (some token) (Net.hostPort host port) ++ [""]).flatMap line) ∧
      (u.protocol ≠ .http → Short c → password? (passwordPacket c) =
        some (Utf8.encode user, Utf8.encode (password.getD ""))) := by
  obtain ⟨p, hparse, hprotocol, hhost, hport, hcredentials⟩ := Url.exists_parse h haccepted
  obtain ⟨huser, hpassword⟩ := Url.ofUserInfo_eq h
  refine ⟨p, _, hparse, hprotocol, hhost, hport, hcredentials, huser, hpassword,
    fun hhttp => ?_, fun _ hshort => ?_⟩
  · refine ⟨(Credentials.ofUserInfo u.userInfo).token, ?_, fun resolve host port w => ?_⟩
    · rw [Credentials.token, String.toList_ofList, Text.base64Decode?_base64, huser, hpassword]
    · rw [establish_sent_http resolve (hprotocol.trans hhttp), httpRequest_eq, hcredentials,
        Option.map_some]
  · rw [password?_passwordPacket hshort, huser, hpassword]

/-- Delimiters, a percent sign and an accent in user and password. -/
theorem parse_url_delimiters :
    let user := "us@er:é"
    let password := "p:%/"
    let u : Url := ⟨.http, Text.escape (Utf8.encode user),
      some (Text.escape (Utf8.encode password)), [':', ':', '1'], true, some 3128, ['/']⟩
    u.text = "http://us%40er%3A%C3%A9:p%3A%25%2F@[::1]:3128/" ∧ u.Names user (some password) ∧
      (∃ uri, Uri.parse u.text = .ok uri) ∧
      ∃ p c, Proxy.parse u.text = .ok p ∧ p.host = "::1" ∧ p.port = 3128 ∧
        p.credentials = some c ∧ c.user = user ∧ c.password.getD "" = password := by
  intro user password u
  have hchars : u.chars = "http://us%40er%3A%C3%A9:p%3A%25%2F@[::1]:3128/".toList := by
    decide +kernel
  have htext : u.text = "http://us%40er%3A%C3%A9:p%3A%25%2F@[::1]:3128/" := by
    rw [Url.text, hchars, String.ofList_toList]
  have hnames : u.Names user (some password) :=
    ⟨Text.escapes_escape _, .some (Text.escapes_escape _), by simp [u], nofun,
      by simp [u, Uri.endsAuthority]⟩
  have haccepted : Uri.parse u.text =
      .ok ⟨some "http", "us%40er%3A%C3%A9:p%3A%25%2F@[::1]:3128", "/", none⟩ := by
    rw [htext]
    decide +kernel
  obtain ⟨p, c, hparse, -, hhost, hport, hcredentials, huser, hpassword, -, -⟩ :=
    parse_url hnames haccepted
  exact ⟨htext, hnames, ⟨_, haccepted⟩, p, c, hparse, hhost, hport, hcredentials, huser,
    hpassword⟩

end Proxy

end Wiretap
