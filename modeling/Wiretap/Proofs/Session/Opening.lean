import Wiretap.Proofs.Http.Heads
import Wiretap.Session

/-!
# What opens a session

A client is answered exactly if the first line of its stream asks for a target and, where the
target's host is decrypted, there is a certificate for it (`session_reply`). Nothing is dialed
for a client that is not answered, nor for one whose tunnel is decrypted before it has made its
TLS handshake.
-/

namespace Wiretap

namespace Tunnel

/-! ## The request -/

/-- The bytes before the first line feed, or all bytes of a stream that ends without one. -/
def FirstLine (closed : Bool) (stream line rest : Bytes) : Prop :=
  Bytes.lf ∉ line ∧
    (stream = line ++ Bytes.lf :: rest ∨ closed = true ∧ stream = line ∧ rest = [])

/-- Read leniently and without the blanks at its ends, a line is `CONNECT`, a space, the text of a
target, and nothing more or a space with whatever follows. -/
def AsksFor (line : Bytes) (target : Net.Target) : Prop :=
  ∃ text more : List Char,
    Text.trimChars (Utf8.decodeLossy line) = "CONNECT".toList ++ ' ' :: (text ++ more) ∧
      ' ' ∉ text ∧ (more = [] ∨ more.head? = some ' ') ∧
      Net.Target.parse (String.ofList text) = .ok target

/-- A stream begins with a line of allowed length that asks for a target. -/
def Requests (closed : Bool) (stream : Bytes) (target : Net.Target) (rest : Bytes) : Prop :=
  ∃ line, FirstLine closed stream line rest ∧ line.length ≤ maxLine ∧ AsksFor line target

theorem readLine_cons (closed : Bool) {line : Bytes} (h : Bytes.lf ∉ line) (rest : Bytes) :
    readLine closed (line ++ Bytes.lf :: rest) =
      if maxLine < line.length then .error (.invalidRequest "request line too long")
      else .ok (line, rest) := by
  unfold readLine
  simp only [Bytes.takeWhile_of_notMem h, Bytes.dropWhile_of_notMem h]
  simp

theorem readLine_of_notMem (closed : Bool) {stream : Bytes} (h : Bytes.lf ∉ stream) :
    readLine closed stream =
      if maxLine < stream.length then .error (.invalidRequest "request line too long")
      else if closed then .ok (stream, [])
      else .error (.invalidRequest "no request line before the idle timeout") := by
  have hne : ∀ b ∈ stream, (b != Bytes.lf) = true := fun b hb =>
    bne_iff_ne.mpr (ne_of_mem_of_not_mem hb h)
  unfold readLine
  simp only [List.takeWhile_eq_self_iff.mpr hne, List.dropWhile_eq_nil_iff.mpr hne]
  cases closed <;> simp

theorem readLine_eq_ok_iff {closed : Bool} {stream line rest : Bytes} :
    readLine closed stream = .ok (line, rest) ↔
      FirstLine closed stream line rest ∧ line.length ≤ maxLine := by
  constructor
  · intro h
    by_cases hlf : Bytes.lf ∈ stream
    · obtain ⟨first, more, rfl, hfirst⟩ := List.eq_append_cons_of_mem hlf
      rw [readLine_cons closed hfirst] at h
      split at h
      · cases h
      · cases h
        exact ⟨⟨hfirst, .inl rfl⟩, by omega⟩
    · rw [readLine_of_notMem closed hlf] at h
      split at h
      · cases h
      split at h
      · rename_i hclosed
        cases h
        exact ⟨⟨hlf, .inr ⟨hclosed, rfl, rfl⟩⟩, by omega⟩
      · cases h
  · rintro ⟨⟨hline, rfl | ⟨rfl, rfl, rfl⟩⟩, hlen⟩
    · rw [readLine_cons closed hline, if_neg (by omega)]
    · rw [readLine_of_notMem true hline, if_neg (by omega), if_pos rfl]

theorem splitOn_space_iff {cs word : List Char} :
    (∃ words, Bytes.splitOn ' ' cs = word :: words) ↔
      ∃ more, cs = word ++ more ∧ ' ' ∉ word ∧ (more = [] ∨ more.head? = some ' ') := by
  constructor
  · rintro ⟨words, h⟩
    rcases Bytes.splitOn_cases ' ' cs with ⟨hcs, heq⟩ | ⟨piece, rest, rfl, hpiece, heq⟩
    · cases heq.symm.trans h
      exact ⟨[], (List.append_nil _).symm, hcs, .inl rfl⟩
    · cases heq.symm.trans h
      exact ⟨' ' :: rest, rfl, hpiece, .inr rfl⟩
  · rintro ⟨more, rfl, hword, rfl | hmore⟩
    · exact ⟨[], by rw [List.append_nil, Bytes.splitOn_of_notMem hword]⟩
    · obtain ⟨rest, rfl⟩ := List.head?_eq_some_iff.mp hmore
      exact ⟨_, Bytes.splitOn_append hword rest⟩

theorem target_eq_ok_iff {line : Bytes} {t : Net.Target} :
    target line = .ok t ↔ AsksFor line t := by
  unfold target
  simp only
  generalize htext : Text.trimChars (Utf8.decodeLossy line) = cs
  have hconnect : ' ' ∉ "CONNECT".toList := by decide
  constructor
  · intro h
    split at h
    · rename_i method word words hsplit
      split at h
      · rename_i hmethod
        subst hmethod
        obtain ⟨rest, rfl, -, hrest⟩ := Bytes.splitOn_eq_cons_cons_iff.mp hsplit
        obtain ⟨more, rfl, hword, hmore⟩ := splitOn_space_iff.mp ⟨words, hrest⟩
        exact ⟨word, more, htext, hword, hmore, h⟩
      · cases h
    · cases h
  · rintro ⟨word, more, hline, hword, hmore, hparse⟩
    obtain ⟨words, hwords⟩ := splitOn_space_iff.mpr ⟨more, rfl, hword, hmore⟩
    rw [htext] at hline
    have hsplit : Bytes.splitOn ' ' cs = "CONNECT".toList :: word :: words := by
      rw [hline, Bytes.splitOn_append hconnect, hwords]
    rw [hsplit]
    simp only [if_true]
    exact hparse

theorem requests_iff {closed : Bool} {stream : Bytes} {t : Net.Target} {rest : Bytes} :
    Requests closed stream t rest ↔
      ∃ line, readLine closed stream = .ok (line, rest) ∧ target line = .ok t := by
  unfold Requests
  simp only [readLine_eq_ok_iff, target_eq_ok_iff, and_assoc]

theorem Requests.unique {closed : Bool} {stream : Bytes} {t t' : Net.Target} {rest rest' : Bytes}
    (h : Requests closed stream t rest) (h' : Requests closed stream t' rest') :
    t = t' ∧ rest = rest' := by
  obtain ⟨line, hline, htarget⟩ := requests_iff.mp h
  obtain ⟨line', hline', htarget'⟩ := requests_iff.mp h'
  cases hline.symm.trans hline'
  cases htarget.symm.trans htarget'
  exact ⟨rfl, rfl⟩

/-- A target in brackets, with the version behind it. -/
example : Requests false (Utf8.encode "CONNECT [::1]:443 HTTP/1.1\nHost: a\n\n")
    ⟨"::1", 443⟩ (Utf8.encode "Host: a\n\n") :=
  requests_iff.mpr ⟨Utf8.encode "CONNECT [::1]:443 HTTP/1.1", by decide +kernel⟩

end Tunnel

namespace Server

/-! ## The answer -/

/-- A request that is answered. -/
structure Answers (s : Server) (c : Client) (target : Net.Target) (rest : Bytes) : Prop where
  asked : Tunnel.Requests c.closes c.plain target rest
  /-- There is something to present to the client of a decrypted tunnel. -/
  presented : s.policy.decrypts target.host = true →
    ∃ record, (s.registry.ensure s.vault target.host).1 = .ok record

/-- Behind the headers the client sends nothing but a TLS handshake, which offers no protocols or
the one that is accepted. -/
def Completes (ahead : Bytes) (hello : Hello) : Prop :=
  ahead = [] ∧ ∃ offers, hello = some offers ∧ (offers = [] ∨ "http/1.1" ∈ offers)

section

variable {s : Server} {host : String}

theorem present_blind (h : s.policy.decrypts host = false) : s.present host = (.ok none, s) := by
  unfold present
  rw [h]
  rfl

theorem present_decrypted (h : s.policy.decrypts host = true) :
    (s.present host).1 = (s.registry.ensure s.vault host).1.map some := by
  unfold present
  rw [if_pos h]

theorem present_eq_ok {record : Option Cert.Record} (h : (s.present host).1 = .ok record) :
    record.isSome = s.policy.decrypts host := by
  cases hd : s.policy.decrypts host with
  | false =>
    rw [present_blind hd] at h
    cases h
    rfl
  | true =>
    rw [present_decrypted hd] at h
    cases he : (s.registry.ensure s.vault host).1 with
    | error e => rw [he] at h; cases h
    | ok found => rw [he] at h; cases h; rfl

theorem exists_present_iff : (∃ record, (s.present host).1 = .ok record) ↔
    (s.policy.decrypts host = true →
      ∃ record, (s.registry.ensure s.vault host).1 = .ok record) := by
  cases hd : s.policy.decrypts host with
  | false =>
    rw [present_blind hd]
    exact ⟨fun _ => nofun, fun _ => ⟨none, rfl⟩⟩
  | true =>
    rw [present_decrypted hd]
    cases he : (s.registry.ensure s.vault host).1 <;> simp [Except.map]

/-- A request that is made is granted or refused by what there is to present, and nothing else. -/
theorem grant_of_requests {closed : Bool} {stream : Bytes} {target : Net.Target} {rest : Bytes}
    (h : Tunnel.Requests closed stream target rest) :
    s.grant closed stream = ((s.present target.host).1.map fun record => ⟨target, record, rest⟩,
      (s.present target.host).2) := by
  obtain ⟨line, hline, htarget⟩ := Tunnel.requests_iff.mp h
  unfold grant
  simp only [hline, htarget]
  obtain ⟨result, s'⟩ := s.present target.host
  cases result <;> rfl

theorem grant_of_not_requests {closed : Bool} {stream : Bytes}
    (h : ∀ target rest, ¬ Tunnel.Requests closed stream target rest) :
    ∃ e, s.grant closed stream = (.error e, s) := by
  unfold grant
  split
  · exact ⟨_, rfl⟩
  · rename_i line rest hline
    split
    · exact ⟨_, rfl⟩
    · rename_i target htarget
      exact absurd (Tunnel.requests_iff.mpr ⟨line, hline, htarget⟩) (h target rest)

theorem grant_eq_ok_iff {closed : Bool} {stream : Bytes} {g : Grant} :
    (s.grant closed stream).1 = .ok g ↔ Tunnel.Requests closed stream g.target g.rest ∧
      (s.present g.target.host).1 = .ok g.record := by
  constructor
  · intro h
    by_cases hr : ∃ target rest, Tunnel.Requests closed stream target rest
    · obtain ⟨target, rest, hr⟩ := hr
      rw [grant_of_requests hr] at h
      cases hp : (s.present target.host).1 with
      | error e => rw [hp] at h; cases h
      | ok record => rw [hp] at h; cases h; exact ⟨hr, hp⟩
    · push Not at hr
      obtain ⟨e, he⟩ := grant_of_not_requests (s := s) hr
      rw [he] at h
      cases h
  · rintro ⟨hr, hp⟩
    rw [grant_of_requests hr, hp]
    rfl

theorem answers_iff {c : Client} {target : Net.Target} {rest : Bytes} :
    s.Answers c target rest ↔ ∃ g, (s.grant c.closes c.plain).1 = .ok g ∧
      g.target = target ∧ g.rest = rest := by
  constructor
  · rintro ⟨hasked, hpresented⟩
    obtain ⟨record, hrecord⟩ := exists_present_iff.mpr hpresented
    exact ⟨⟨target, record, rest⟩, grant_eq_ok_iff.mpr ⟨hasked, hrecord⟩, rfl, rfl⟩
  · rintro ⟨g, hg, rfl, rfl⟩
    obtain ⟨hasked, hrecord⟩ := grant_eq_ok_iff.mp hg
    exact ⟨hasked, exists_present_iff.mp ⟨g.record, hrecord⟩⟩

theorem not_answers_of_refused {c : Client} {e : Error} {s' : Server}
    (h : s.grant c.closes c.plain = (.error e, s')) (target : Net.Target) (rest : Bytes) :
    ¬ s.Answers c target rest := by
  intro ha
  obtain ⟨g, hg, -⟩ := answers_iff.mp ha
  rw [h] at hg
  cases hg

theorem answers_iff_of_granted {c : Client} {g : Grant} {s' : Server}
    (h : s.grant c.closes c.plain = (.ok g, s')) {target : Net.Target} {rest : Bytes} :
    s.Answers c target rest ↔ g.target = target ∧ g.rest = rest := by
  rw [answers_iff, h]
  simp

theorem grant_record {closed : Bool} {stream : Bytes} {g : Grant}
    (h : (s.grant closed stream).1 = .ok g) :
    g.record.isSome = s.policy.decrypts g.target.host :=
  present_eq_ok (grant_eq_ok_iff.mp h).2

end

/-! ## Carrying it out -/

theorem exists_welcome_iff {record : Cert.Record} {ahead : Bytes} {hello : Hello} :
    (∃ alpn, welcome record ahead hello = .ok alpn) ↔ Completes ahead hello := by
  unfold welcome Completes
  cases ahead with
  | cons b ahead => simp
  | nil =>
    cases hello with
    | none => simp
    | some offers =>
      by_cases hempty : offers = []
      · simp [Outbound.agreed, hempty, Except.mapError]
      · by_cases hmem : "http/1.1" ∈ offers <;>
          simp [Outbound.agreed, Cert.Record.alpn, hempty, hmem, Except.mapError]

section

variable (s : Server) (net : Net.Network) (closed : Bool) (hello : Hello) (g : Grant)

theorem carryOut_reply : (s.carryOut net closed hello g).reply = Tunnel.established := by
  unfold carryOut
  split
  · rfl
  · rfl
  · split <;> rfl

/-- The origin is dialed behind the headers, and behind the handshake of a decrypted tunnel. -/
theorem carryOut_dial : (s.carryOut net closed hello g).dial.isSome ↔
    ∃ ahead, Tunnel.skipHeaders closed g.rest = some ahead ∧
      (g.record.isSome → Completes ahead hello) := by
  unfold carryOut
  split
  · rename_i hskip
    simp [hskip]
  · rename_i hskip hrecord
    simp [hskip, hrecord, Opening.ofDial]
  · rename_i ahead record hskip hrecord
    simp only [hskip, hrecord, Option.some.injEq, exists_eq_left', Option.isSome_some,
      true_implies, ← @exists_welcome_iff record ahead hello]
    cases hw : welcome record ahead hello <;> simp [Opening.ofDial]

theorem carryOut_alpn : (s.carryOut net closed hello g).alpn.isSome =
    ((s.carryOut net closed hello g).dial.isSome && g.record.isSome) := by
  unfold carryOut
  split
  · rfl
  · rename_i hrecord
    simp [hrecord, Opening.ofDial]
  · rename_i hrecord
    split <;> simp [hrecord, Opening.ofDial]

theorem dial_of_carryOut_result {socket : Outbound.Socket} {ahead : Bytes}
    (h : (s.carryOut net closed hello g).result = .ok (socket, ahead)) :
    (s.carryOut net closed hello g).dial.isSome := by
  unfold carryOut at h ⊢
  split at h
  · cases h
  · rfl
  · split at h
    · cases h
    · rfl

end

/-! ## Sessions -/

section

variable {σ : Type} {s s' : Server} {c : Client} {g : Grant} (net : Net.Network)
  (i : Interceptor σ) (now : Tunnel.Moment) (turns : List Tunnel.Turn)

theorem session_refused {e : Error} (h : s.grant c.closes c.plain = (.error e, s')) :
    s.session net i c now turns = (Opening.alone ⟨[], none, none, .error e⟩, s') := by
  unfold session
  rw [h]

theorem session_unreached {e : Error} (h : s.grant c.closes c.plain = (.ok g, s'))
    (he : (s'.carryOut net c.closes c.hello g).result = .error e) :
    s.session net i c now turns = ((s'.carryOut net c.closes c.hello g).alone, s') := by
  unfold session
  simp only [h, he]

theorem session_reached {socket : Outbound.Socket} {ahead : Bytes}
    (h : s.grant c.closes c.plain = (.ok g, s'))
    (hok : (s'.carryOut net c.closes c.hello g).result = .ok (socket, ahead)) :
    let opening := s'.carryOut net c.closes c.hello g
    let tunnel := s'.tunnel i g.target.host now
    let reads := Tunnel.Unread.reads
      ⟨if opening.alpn.isSome then c.secured else ahead, socket.incoming⟩ turns
    s.session net i c now turns =
      (⟨opening, some tunnel, some (tunnel.run i reads.1), reads.2⟩, s') := by
  unfold session
  simp only [h, hok]

/-- What a session makes of a granted request: it is carried out, and once the origin has been
dialed, the tunnel to the host of the request relays some reads. -/
structure Carries (s : Server) (net : Net.Network) (i : Interceptor σ) (c : Client)
    (now : Tunnel.Moment) (g : Grant) (session : Session σ) : Prop where
  opening : session.opening = s.carryOut net c.closes c.hello g
  dialed : session.relayed.isSome → session.opening.dial.isSome
  tunnel : ∀ t ∈ session.tunnel, t = s.tunnel i g.target.host now
  relayed : ∀ result ∈ session.relayed, ∃ reads,
    result = (s.tunnel i g.target.host now).run i reads

theorem session_granted (h : s.grant c.closes c.plain = (.ok g, s')) :
    Carries s' net i c now g (s.session net i c now turns).1 ∧
      (s.session net i c now turns).2 = s' := by
  cases hresult : (s'.carryOut net c.closes c.hello g).result with
  | error e =>
    rw [session_unreached net i now turns h hresult]
    exact ⟨⟨rfl, nofun, nofun, nofun⟩, rfl⟩
  | ok reached =>
    rw [session_reached net i now turns h hresult]
    refine ⟨⟨rfl, fun _ => ?_, fun t ht => ?_, fun result hr => ?_⟩, rfl⟩
    · exact dial_of_carryOut_result s' net c.closes c.hello g hresult
    · exact (Option.some.inj ht).symm
    · exact ⟨_, (Option.some.inj hr).symm⟩

/-- A session begins with the answer to its client. -/
theorem session_answer (s : Server) (c : Client) :
    ((s.session net i c now turns).1.opening, (s.session net i c now turns).2) =
      s.answer net c.closes c.plain c.hello := by
  unfold answer
  cases hgrant : s.grant c.closes c.plain with
  | mk result s' =>
    cases result with
    | error e =>
      rw [session_refused net i now turns hgrant]
      rfl
    | ok g =>
      obtain ⟨hcarries, hafter⟩ := session_granted net i now turns hgrant
      exact Prod.ext hcarries.opening hafter

end

/-- A client gets the one line of reply exactly if its request is answered, and nothing else in
plain text. Without it nothing is dialed or relayed, and for a decrypted tunnel nothing is before
the client has made its TLS handshake. -/
theorem session_reply {σ : Type} (s : Server) (net : Net.Network) (i : Interceptor σ) (c : Client)
    (now : Tunnel.Moment) (turns : List Tunnel.Turn) :
    let session := (s.session net i c now turns).1
    let opening := session.opening
    (opening.reply = [] ∨ opening.reply = Tunnel.established) ∧
    (opening.reply = Tunnel.established ↔ ∃ target rest, s.Answers c target rest) ∧
    (opening.reply = [] → opening.dial = none ∧ session.relayed = none) ∧
    (opening.dial.isSome ↔ ∃ target rest ahead, s.Answers c target rest ∧
      Tunnel.skipHeaders c.closes rest = some ahead ∧
      (s.policy.decrypts target.host = true → Completes ahead c.hello)) ∧
    ∀ target rest, s.Answers c target rest → s.policy.decrypts target.host = true →
      opening.dial.isSome ∨ session.relayed.isSome → opening.alpn.isSome ∧
        ∃ ahead, Tunnel.skipHeaders c.closes rest = some ahead ∧ Completes ahead c.hello := by
  intro session opening
  have hne : ([] : Bytes) ≠ Tunnel.established := by decide +kernel
  cases hgrant : s.grant c.closes c.plain with
  | mk result s' =>
    cases result with
    | error e =>
      have hsession : session = Opening.alone ⟨[], none, none, .error e⟩ :=
        congrArg Prod.fst (session_refused net i now turns hgrant)
      have hopening : opening = ⟨[], none, none, .error e⟩ := congrArg Session.opening hsession
      rw [hsession, hopening]
      simp [not_answers_of_refused hgrant, hne, Opening.alone]
    | ok g =>
      have hcarries : Carries s' net i c now g session :=
        (session_granted net i now turns hgrant).1
      have hopening : opening = s'.carryOut net c.closes c.hello g := hcarries.opening
      have hreply : opening.reply = Tunnel.established := by rw [hopening, carryOut_reply]
      have hrecord : g.record.isSome = s.policy.decrypts g.target.host :=
        grant_record (congrArg Prod.fst hgrant)
      have hdial := carryOut_dial s' net c.closes c.hello g
      have halpn := carryOut_alpn s' net c.closes c.hello g
      rw [← hopening, hrecord] at hdial halpn
      simp only [answers_iff_of_granted hgrant]
      refine ⟨.inr hreply, ⟨fun _ => ⟨_, _, rfl, rfl⟩, fun _ => hreply⟩, ?_, ?_, ?_⟩
      · rw [hreply]
        exact fun h => absurd h.symm hne
      · rw [hdial]
        simp
      · rintro _ _ ⟨rfl, rfl⟩ hdecrypts hreached
        have hd : opening.dial.isSome := hreached.elim id hcarries.dialed
        obtain ⟨ahead, hskip, hcompletes⟩ := hdial.mp hd
        refine ⟨?_, ahead, hskip, hcompletes hdecrypts⟩
        rw [halpn, hd, hdecrypts]
        rfl

end Server

end Wiretap
