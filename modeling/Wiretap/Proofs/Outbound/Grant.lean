import Wiretap.Outbound.Handshake
import Wiretap.Proofs.Http.Heads

/-!
# Tunnels that a proxy grants

A handshake succeeds exactly if what the proxy sends begins with an answer that grants the
tunnel, and then it has read that answer and no byte behind it (`establish_ok_iff`). The
answers are a grammar for each protocol (`Grants`), and every step of a handshake takes the
answers of its part of it (`Takes`).
-/

namespace Wiretap.Proxy

open Talk

/-! ## Steps -/

section

variable {α β : Type}

/-- What a talk makes of the bytes that come is what a grammar makes of a first part of them, and
it reads nothing behind that. -/
def Reads (t : Talk α) (grammar : α → Bytes → Prop) : Prop :=
  ∀ w a rest, (∃ sent, t w = (.ok a, ⟨rest, sent⟩)) ↔
    ∃ answer, grammar a answer ∧ w.incoming = answer ++ rest

theorem Reads.congr {t : Talk α} {g g' : α → Bytes → Prop} (h : Reads t g)
    (hg : ∀ a answer, g' a answer ↔ g a answer) : Reads t g' := by
  intro w a rest
  rw [h w a rest]
  simp only [hg]

theorem reads_fail {e : Error} {g : α → Bytes → Prop} (h : ∀ a answer, ¬ g a answer) :
    Reads (fail e) g := by
  intro w a rest
  refine ⟨fun ⟨_, hok⟩ => ?_, fun ⟨answer, hg, _⟩ => absurd hg (h a answer)⟩
  cases hok

theorem reads_done : Reads (done ()) fun _ answer => answer = [] := by
  intro w a rest
  simp only [exists_eq_left, List.nil_append]
  constructor
  · rintro ⟨sent, hok⟩
    cases hok
    rfl
  · rintro rfl
    exact ⟨w.sent, rfl⟩

/-- What is sent does not matter to what is read. -/
theorem reads_send {s : Bytes} {f : Unit → Talk α} {g : α → Bytes → Prop} (h : Reads (f ()) g) :
    Reads ((send s).andThen f) g := fun w a rest => h { w with sent := w.sent ++ s } a rest

/-- Exactly `n` bytes are read. -/
theorem reads_receive (n : Nat) : Reads (receive n) fun a answer => answer = a ∧ a.length = n := by
  intro w a rest
  unfold receive
  constructor
  · rintro ⟨sent, hok⟩
    split at hok
    · rename_i hn
      cases hok
      exact ⟨_, ⟨rfl, List.length_take_of_le hn⟩, (List.take_append_drop n w.incoming).symm⟩
    · cases hok
  · rintro ⟨answer, ⟨rfl, rfl⟩, hin⟩
    rw [hin, if_pos (by simp), List.take_left, List.drop_left]
    exact ⟨w.sent, rfl⟩

theorem Reads.andThen {t : Talk α} {f : α → Talk β} {g : α → Bytes → Prop}
    {g' : α → β → Bytes → Prop} (ht : Reads t g)
    (hf : ∀ a answer, g a answer → Reads (f a) (g' a)) :
    Reads (t.andThen f) fun b answer =>
      ∃ a first second, answer = first ++ second ∧ g a first ∧ g' a b second := by
  intro w b rest
  constructor
  · rintro ⟨sent, hok⟩
    unfold Talk.andThen at hok
    split at hok
    · rename_i a w' hw
      obtain ⟨first, hfirst, hin⟩ := (ht w a w'.incoming).mp ⟨w'.sent, hw⟩
      obtain ⟨second, hsecond, hrest⟩ := (hf a first hfirst w' b rest).mp ⟨sent, hok⟩
      refine ⟨first ++ second, ⟨a, first, second, rfl, hfirst, hsecond⟩, ?_⟩
      rw [hin, hrest, List.append_assoc]
    · cases hok
  · rintro ⟨_, ⟨a, first, second, rfl, hfirst, hsecond⟩, hin⟩
    rw [List.append_assoc] at hin
    obtain ⟨sent', hw⟩ := (ht w a _).mpr ⟨first, hfirst, hin⟩
    obtain ⟨sent, hok⟩ :=
      (hf a first hfirst ⟨second ++ rest, sent'⟩ b rest).mpr ⟨second, hsecond, rfl⟩
    refine ⟨sent, ?_⟩
    rw [Talk.andThen, hw]
    exact hok

/-- A grammar whose answers begin with what is read first goes on with what completes it. -/
theorem Reads.front {t : Talk Bytes} {front : Bytes → Prop} {f : Bytes → Talk β}
    {g : β → Bytes → Prop} (ht : Reads t fun a answer => answer = a ∧ front a)
    (hfront : ∀ b answer, g b answer → ∃ first second, answer = first ++ second ∧ front first)
    (hf : ∀ first, front first → Reads (f first) fun b second => g b (first ++ second)) :
    Reads (t.andThen f) g := by
  refine (ht.andThen fun a _ h => hf a h.2).congr fun b answer => ⟨fun h => ?_, ?_⟩
  · obtain ⟨first, second, rfl, hfirst⟩ := hfront b answer h
    exact ⟨first, first, second, rfl, ⟨rfl, hfirst⟩, h⟩
  · rintro ⟨a, first, second, rfl, ⟨rfl, -⟩, h⟩
    exact h

/-- A grammar whose answers have no less than `n` bytes. -/
theorem reads_receive_andThen {n : Nat} {f : Bytes → Talk β} {g : β → Bytes → Prop}
    (hlong : ∀ b answer, g b answer → n ≤ answer.length)
    (hf : ∀ first, first.length = n → Reads (f first) fun b second => g b (first ++ second)) :
    Reads ((receive n).andThen f) g :=
  (reads_receive n).front (fun b answer h => ⟨answer.take n, answer.drop n,
    (List.take_append_drop n answer).symm, List.length_take_of_le (hlong b answer h)⟩) hf

/-- Bytes that are only counted. -/
theorem reads_skip (n : Nat) :
    Reads ((receive n).andThen fun _ => done ()) fun _ answer => answer.length = n := by
  refine reads_receive_andThen (fun _ _ h => Nat.le_of_eq h.symm) fun first hfirst => ?_
  refine reads_done.congr fun _ second => ?_
  rw [List.length_append, hfirst, Nat.add_eq_left, List.length_eq_zero_iff]

end

/-! ## HTTP -/

/-- A head and no byte behind it, of the size that is allowed for. -/
structure IsHead (head : Bytes) : Prop where
  ends : Http.headerEnd head = some head.length
  short : head.length ≤ maxHead

/-- The status on the first line of a head. -/
def HasStatus (head : Bytes) (status : Nat) : Prop :=
  ∃ line version code more, Utf8.decode? (head.takeWhile (· != Bytes.lf)) = some line ∧
    Text.words line = version :: code :: more ∧ "HTTP/".toList <+: version ∧
    Number.word16? code = some status

/-- A head that grants a tunnel. -/
structure HttpGrant (head : Bytes) : Prop extends IsHead head where
  success : ∃ status, HasStatus head status ∧ 200 ≤ status ∧ status < 300

theorem statusCode?_eq_some_iff {head : Bytes} {status : Nat} :
    statusCode? head = some status ↔ HasStatus head status := by
  unfold statusCode? HasStatus
  cases Utf8.decode? (head.takeWhile (· != Bytes.lf)) with
  | none => simp
  | some line =>
    simp only [Option.some.injEq]
    constructor
    · intro h
      split at h
      · rename_i version code more hwords
        split at h
        · rename_i hprefix
          exact ⟨line, version, code, more, rfl, hwords, List.isPrefixOf_iff_prefix.mp hprefix, h⟩
        · cases h
      · cases h
    · rintro ⟨_, version, code, more, rfl, hwords, hprefix, hcode⟩
      simp only [hwords, List.isPrefixOf_iff_prefix.mpr hprefix, if_true, hcode]

/-- A head does not begin with another one. -/
theorem IsHead.append_eq {head other s t : Bytes} (h : IsHead head)
    (ho : Http.headerEnd other = some other.length) (heq : head ++ s = other ++ t) :
    head = other ∧ s = t := by
  refine List.append_inj heq (Option.some.inj ?_)
  rw [← Http.headerEnd_append (t := s) h.ends, heq, Http.headerEnd_append ho]

theorem endsHead_iff {acc : Bytes} :
    endsHead acc = true ↔ Http.headerTerminator <:+ acc.reverse := by
  rw [show Http.headerTerminator = [0x0a, 0x0d, 0x0a, 0x0d].reverse from rfl,
    List.reverse_suffix]
  constructor
  · intro h
    unfold endsHead at h
    split at h
    · exact ⟨_, rfl⟩
    · cases h
  · rintro ⟨rest, rfl⟩
    rfl

/-- A byte that makes up the first end of a head makes up the head. -/
theorem headerEnd_concat {s : Bytes} (h : ¬ Http.headerTerminator <:+: s) {b : UInt8}
    (hb : Http.headerTerminator <:+ s ++ [b]) :
    Http.headerEnd (s ++ [b]) = some (s ++ [b]).length := by
  obtain ⟨front, hfront⟩ := hb
  have hearly : ¬ Http.headerTerminator <:+: (front ++ Http.headerTerminator).dropLast := by
    rwa [hfront, List.dropLast_concat]
  rw [← hfront, Http.headerEnd, Bytes.find_of_dropLast Http.headerTerminator_ne_nil hearly,
    Option.map_some, List.length_append]

theorem IsHead.terminated {head : Bytes} (h : IsHead head) : Http.headerTerminator <:+: head :=
  Http.isSome_headerEnd_iff.mp (Option.isSome_of_eq_some h.ends)

/-- What is read behind bytes in which no head ends: a head at the front of them and what follows,
as soon as it is there. -/
theorem readHeadFrom_eq_head_iff {acc s head rest : Bytes}
    (h : ¬ Http.headerTerminator <:+: acc.reverse) :
    readHeadFrom acc acc.length s = .head head rest ↔
      IsHead head ∧ acc.reverse ++ s = head ++ rest := by
  induction s generalizing acc with
  | nil =>
    refine ⟨nofun, fun ⟨hhead, heq⟩ => ?_⟩
    rw [List.append_nil] at heq
    exact absurd (hhead.terminated.trans (heq ▸ (List.prefix_append head rest).isInfix)) h
  | cons b s ih =>
    rw [readHeadFrom]
    split
    · rename_i hlarge
      refine ⟨nofun, fun ⟨hhead, heq⟩ => ?_⟩
      -- a head that is short enough would have ended before
      have hprefix : head <+: acc.reverse := by
        refine List.prefix_of_prefix_length_le ⟨rest, heq.symm⟩ (List.prefix_append _ _) ?_
        rw [List.length_reverse]
        exact Nat.le_trans hhead.short (Nat.le_of_lt_succ hlarge)
      exact absurd (hhead.terminated.trans hprefix.isInfix) h
    · rename_i hsmall
      have hcut : acc.reverse ++ b :: s = (b :: acc).reverse ++ s := by simp
      split
      · rename_i hends
        rw [endsHead_iff, List.reverse_cons] at hends
        have hhead : IsHead (b :: acc).reverse := by
          refine ⟨List.reverse_cons ▸ headerEnd_concat h hends, ?_⟩
          rw [List.length_reverse, List.length_cons]
          exact Nat.le_of_not_lt hsmall
        rw [hcut, HeadRead.head.injEq]
        refine ⟨fun ⟨h₁, h₂⟩ => ⟨h₁ ▸ hhead, by rw [h₁, h₂]⟩, fun ⟨ho, heq⟩ => ?_⟩
        exact hhead.append_eq ho.ends heq
      · rename_i hends
        rw [endsHead_iff] at hends
        rw [hcut]
        refine ih fun hin => ?_
        rw [List.reverse_cons] at hin hends
        exact (List.infix_concat_iff.mp hin).elim hends h

theorem reads_receiveHead : Reads receiveHead fun a answer => answer = a ∧ IsHead a := by
  intro w head rest
  have hiff (rest : Bytes) :
      readHeadFrom [] 0 w.incoming = .head head rest ↔ IsHead head ∧ w.incoming = head ++ rest :=
    @readHeadFrom_eq_head_iff [] w.incoming head rest (by decide)
  unfold receiveHead
  constructor
  · rintro ⟨sent, hok⟩
    split at hok
    · rename_i hread
      cases hok
      obtain ⟨hhead, hin⟩ := (hiff _).mp hread
      exact ⟨head, ⟨rfl, hhead⟩, hin⟩
    · cases hok
    · cases hok
  · rintro ⟨_, ⟨rfl, hhead⟩, hin⟩
    rw [(hiff rest).mpr ⟨hhead, hin⟩]
    exact ⟨w.sent, rfl⟩

/-- Behind a head nothing more belongs to the grant. -/
theorem httpGrant_append_iff {head : Bytes} (h : IsHead head) (second : Bytes) :
    HttpGrant (head ++ second) ↔
      second = [] ∧ ∃ status, statusCode? head = some status ∧ 200 ≤ status ∧ status < 300 := by
  simp only [statusCode?_eq_some_iff]
  constructor
  · intro hg
    obtain ⟨-, rfl⟩ := h.append_eq (t := []) hg.ends (List.append_nil _).symm
    rw [List.append_nil] at hg
    exact ⟨rfl, hg.success⟩
  · rintro ⟨rfl, hs⟩
    rw [List.append_nil]
    exact ⟨h, hs⟩

theorem reads_http (credentials : Option Credentials) (host : String) (port : Nat) :
    Reads (establishHttp credentials host port) fun _ => HttpGrant := by
  unfold establishHttp
  refine reads_send ?_
  refine reads_receiveHead.front (fun _ answer h => ⟨answer, [], by simp, h.toIsHead⟩)
    fun head hhead => ?_
  have hiff := httpGrant_append_iff hhead
  cases hstatus : statusCode? head with
  | none => exact reads_fail fun _ second h => by simpa [hstatus] using (hiff second).mp h
  | some status =>
    simp only [hstatus, Option.some.injEq, exists_eq_left'] at hiff
    simp only
    split
    · rename_i hrange
      exact reads_done.congr fun _ second => by rw [hiff, and_iff_left hrange]
    · rename_i hrange
      exact reads_fail fun _ second h => hrange ((hiff second).mp h).2

/-! ## SOCKS5 -/

/-- A choice of no authentication, or of a password with its success. -/
inductive Choice (credentials : Option Credentials) : Bytes → Prop
  | none : Choice credentials [5, 0]
  | password (known : credentials.isSome) (version : UInt8) : Choice credentials [5, 2, version, 0]

/-- An address behind the byte for its kind. -/
inductive BoundAddress : Bytes → Prop
  | v4 {octets : Bytes} (length : octets.length = 4) : BoundAddress (1 :: octets)
  | v6 {octets : Bytes} (length : octets.length = 16) : BoundAddress (4 :: octets)
  | name {name : Bytes} (n : UInt8) (length : name.length = n.toNat) : BoundAddress (3 :: n :: name)

/-- A reply of success with an address and two bytes of port. -/
inductive Reply : Bytes → Prop
  | success (reserved : UInt8) {address port : Bytes} (bound : BoundAddress address)
      (length : port.length = 2) : Reply (5 :: 0 :: reserved :: (address ++ port))

/-- A choice and a reply that grant a tunnel. -/
def Socks5Grant (credentials : Option Credentials) (answer : Bytes) : Prop :=
  ∃ choice reply, answer = choice ++ reply ∧ Choice credentials choice ∧ Reply reply

theorem choice_iff {credentials : Option Credentials} {answer : Bytes} :
    Choice credentials answer ↔ answer = [5, 0] ∨
      credentials.isSome ∧ ∃ second, answer = 5 :: 2 :: second ∧ ∃ inner, second = [inner, 0] := by
  constructor
  · intro h
    cases h with
    | none => exact .inl rfl
    | password known version => exact .inr ⟨known, _, rfl, version, rfl⟩
  · rintro (rfl | ⟨known, _, rfl, version, rfl⟩)
    · exact .none
    · exact .password known version

theorem exists_port {s : Bytes} {n : Nat} (h : s.length = n + 2) :
    ∃ address port, s = address ++ port ∧ address.length = n ∧ port.length = 2 := by
  refine ⟨s.take n, s.drop n, (List.take_append_drop n s).symm, ?_, ?_⟩
  · rw [List.length_take_of_le (by omega)]
  · rw [List.length_drop, h, Nat.add_sub_cancel_left]

theorem reply_cons_iff {version code reserved kind : UInt8} {s : Bytes} :
    Reply (version :: code :: reserved :: kind :: s) ↔
      version = 5 ∧ code = 0 ∧ (kind = 1 ∧ s.length = 4 + 2 ∨ kind = 4 ∧ s.length = 16 + 2 ∨
        kind = 3 ∧ ∃ n more, s = n :: more ∧ more.length = n.toNat + 2) := by
  constructor
  · generalize hanswer : version :: code :: reserved :: kind :: s = answer
    rintro ⟨reserved, bound, hport⟩
    cases bound with
    | v4 length =>
      cases hanswer
      exact ⟨rfl, rfl, .inl ⟨rfl, (List.length_append ..).trans (by rw [length, hport])⟩⟩
    | v6 length =>
      cases hanswer
      exact ⟨rfl, rfl, .inr (.inl ⟨rfl, (List.length_append ..).trans (by rw [length, hport])⟩)⟩
    | name n length =>
      cases hanswer
      exact ⟨rfl, rfl, .inr (.inr ⟨rfl, n, _, rfl,
        (List.length_append ..).trans (by rw [length, hport])⟩)⟩
  · rintro ⟨rfl, rfl, ⟨rfl, hs⟩ | ⟨rfl, hs⟩ | ⟨rfl, n, more, rfl, hs⟩⟩
    all_goals obtain ⟨address, port, rfl, haddress, hport⟩ := exists_port hs
    · exact .success reserved (.v4 haddress) hport
    · exact .success reserved (.v6 haddress) hport
    · exact .success reserved (.name n haddress) hport

theorem reads_authenticate {c : Credentials} (huser : byteLength c.user ≤ 255)
    (hpassword : byteLength (c.password.getD "") ≤ 255) :
    Reads (authenticate c) fun _ answer => ∃ inner, answer = [inner, 0] := by
  unfold authenticate
  rw [if_neg (by omega)]
  refine reads_send (reads_receive_andThen ?_ fun first hfirst => ?_)
  · rintro _ _ ⟨inner, rfl⟩
    exact Nat.le_refl 2
  · obtain ⟨inner, status, rfl⟩ := List.length_eq_two.mp hfirst
    split
    · rename_i heq
      cases heq
      exact reads_done.congr fun _ second => by simp
    · rename_i hne
      refine reads_fail ?_
      rintro _ second ⟨inner', h⟩
      cases h
      exact hne _ rfl

/-- A choice of no authentication, or of a password and what comes of that. -/
theorem reads_negotiate {credentials : Option Credentials} {outcome : Bytes → Prop}
    (h : ∀ c ∈ credentials, Reads (authenticate c) fun _ => outcome) :
    Reads (negotiate credentials) fun _ answer => answer = [5, 0] ∨
      credentials.isSome ∧ ∃ second, answer = 5 :: 2 :: second ∧ outcome second := by
  refine reads_send (reads_receive_andThen ?_ fun first hfirst => ?_)
  · rintro _ _ (rfl | ⟨-, second, rfl, -⟩) <;> simp
  · obtain ⟨version, method, rfl⟩ := List.length_eq_two.mp hfirst
    simp only [List.cons_append, List.nil_append, List.cons.injEq]
    split
    · rename_i heq
      cases heq
      exact reads_done.congr fun _ second => by simp
    · rename_i c heq
      cases heq
      exact (h c rfl).congr fun _ second => by simp
    · rename_i hnone heq hpassword
      cases heq
      refine reads_fail ?_
      rintro _ second (⟨-, rfl, -⟩ | ⟨known, second', ⟨-, rfl, -⟩, -⟩)
      · exact hnone rfl
      · obtain ⟨c, rfl⟩ := Option.isSome_iff_exists.mp known
        exact hpassword c rfl rfl
    · rename_i hversion _
      refine reads_fail ?_
      rintro _ second (⟨rfl, -⟩ | ⟨-, second', ⟨rfl, -⟩, -⟩) <;> exact hversion _ rfl

/-- User and password are not asked for, or fit each into what a byte counts. -/
def Agrees (credentials : Option Credentials) (answer : Bytes) : Prop :=
  [5, 0] <+: answer ∨
    ∀ c ∈ credentials, byteLength c.user ≤ 255 ∧ byteLength (c.password.getD "") ≤ 255

theorem agrees_append_iff {credentials : Option Credentials} {choice : Bytes}
    (h : Choice credentials choice) (reply : Bytes) :
    Agrees credentials (choice ++ reply) ↔ Agrees credentials choice := by
  cases h <;> simp [Agrees]

theorem reads_choice (credentials : Option Credentials) :
    Reads (negotiate credentials) fun _ answer =>
      Choice credentials answer ∧ Agrees credentials answer := by
  by_cases h : ∀ c ∈ credentials, byteLength c.user ≤ 255 ∧ byteLength (c.password.getD "") ≤ 255
  · refine (reads_negotiate fun c hc => reads_authenticate (h c hc).1 (h c hc).2).congr ?_
    intro _ answer
    rw [choice_iff, and_iff_left (.inr h)]
  · -- nothing is read behind the choice of a password that cannot be sent
    have hlong : ∀ c ∈ credentials, Reads (authenticate c) fun _ _ => False := by
      intro c hc
      unfold authenticate
      rw [if_pos]
      · exact reads_fail fun _ _ => id
      · by_contra hshort
        refine h fun c' hc' => ?_
        cases hc.symm.trans hc'
        omega
    refine (reads_negotiate hlong).congr fun _ answer => ?_
    simp only [Agrees, h, or_false, and_false, exists_false]
    constructor
    · rintro ⟨hchoice, hprefix⟩
      cases hchoice with
      | none => rfl
      | password => simp at hprefix
    · rintro rfl
      exact ⟨.none, List.prefix_rfl⟩

theorem reads_boundName :
    Reads ((receive 1).andThen fun length =>
      (receive ((length.headD 0).toNat + 2)).andThen fun _ => done ()) fun _ answer =>
      ∃ n more, answer = n :: more ∧ more.length = n.toNat + 2 := by
  refine reads_receive_andThen ?_ fun first hfirst => ?_
  · rintro _ _ ⟨n, more, rfl, -⟩
    exact Nat.le_add_left 1 more.length
  · obtain ⟨n, rfl⟩ := List.length_eq_one_iff.mp hfirst
    exact (reads_skip (n.toNat + 2)).congr fun _ second => by simp

theorem reads_receiveReply : Reads receiveReply fun _ => Reply := by
  refine reads_receive_andThen (fun _ answer hr => ?_) fun first hfirst => ?_
  · obtain ⟨reserved, bound, hport⟩ := hr
    simp only [List.length_cons, List.length_append, hport]
    omega
  · obtain ⟨version, front, rfl⟩ := List.exists_cons_of_length_eq_add_one hfirst
    obtain ⟨code, reserved, kind, rfl⟩ := List.length_eq_three.mp (Nat.succ.inj hfirst)
    simp only [List.cons_append, List.nil_append, reply_cons_iff]
    split
    · rename_i hversion
      exact reads_fail fun _ _ h => hversion h.1
    split
    · rename_i hcode
      exact reads_fail fun _ _ h => hcode h.2.1
    rename_i hversion hcode
    rw [ne_eq, Classical.not_not] at hversion hcode
    split
    · rename_i hkind
      subst hkind
      exact (reads_skip 6).congr fun _ second => by simp [hversion, hcode]
    split
    · rename_i hkind
      subst hkind
      exact (reads_skip 18).congr fun _ second => by simp [hversion, hcode]
    split
    · rename_i hkind
      subst hkind
      exact reads_boundName.congr fun _ second => by simp [hversion, hcode]
    · rename_i hv4 hv6 hname
      refine reads_fail ?_
      rintro _ second ⟨-, -, h | h | h⟩
      · exact hv4 h.1
      · exact hv6 h.1
      · exact hname h.1

/-! ## The whole handshake -/

/-- Credentials and a destination that there is a request for without asking for an address. -/
def Sendable (p : Proxy) (host : String) : Prop :=
  match p.protocol with
  | .http => True
  | .socks5 remoteNames =>
    (∀ c ∈ p.credentials, byteLength c.user ≤ 255 ∧ byteLength (c.password.getD "") ≤ 255) ∧
      ((Net.Address.parse? host).isSome ∨ remoteNames = true ∧ byteLength host ≤ 255)

/-- The answers of a proxy that grant a tunnel. -/
def Grants (p : Proxy) : Bytes → Prop :=
  match p.protocol with
  | .http => HttpGrant
  | .socks5 _ => Socks5Grant p.credentials

theorem reads_destination {resolve : Resolver} {remoteNames : Bool} {host : String}
    {d : Destination} (hd : destination resolve remoteNames host = .ok d)
    (credentials : Option Credentials) (port : Nat) :
    Reads (establishSocks5 resolve credentials remoteNames host port) fun _ answer =>
      Socks5Grant credentials answer ∧ Agrees credentials answer := by
  unfold establishSocks5
  rw [hd]
  refine ((reads_choice credentials).andThen fun _ _ _ => reads_send reads_receiveReply).congr ?_
  intro _ answer
  unfold Socks5Grant
  constructor
  · rintro ⟨⟨choice, reply, rfl, hchoice, hreply⟩, hagrees⟩
    exact ⟨(), choice, reply, rfl, ⟨hchoice, (agrees_append_iff hchoice reply).mp hagrees⟩, hreply⟩
  · rintro ⟨-, choice, reply, rfl, ⟨hchoice, hagrees⟩, hreply⟩
    exact ⟨⟨choice, reply, rfl, hchoice, hreply⟩, (agrees_append_iff hchoice reply).mpr hagrees⟩

theorem reads_socks5 (resolve : Resolver) {p : Proxy} {remoteNames : Bool}
    (hp : p.protocol = .socks5 remoteNames) {host : String} (h : p.Sendable host) (port : Nat) :
    Reads (establishSocks5 resolve p.credentials remoteNames host port) fun _ =>
      Socks5Grant p.credentials := by
  rw [Sendable, hp] at h
  obtain ⟨d, hd⟩ : ∃ d, destination resolve remoteNames host = .ok d := by
    unfold destination
    cases ha : Net.Address.parse? host with
    | some a => exact ⟨_, rfl⟩
    | none =>
      rw [ha] at h
      obtain ⟨hnames, hshort⟩ := h.2.resolve_left Bool.false_ne_true
      exact ⟨_, by rw [if_pos hnames, if_neg (Nat.not_lt_of_le hshort)]⟩
  refine (reads_destination hd p.credentials port).congr fun _ answer => ?_
  rw [and_iff_left (.inr h.1)]

/-- Whatever a proxy sends: the handshake succeeds exactly if that begins with an answer that
grants the tunnel, of which it leaves what is behind that answer; else it fails. -/
theorem establish_ok_iff (resolve : Resolver) {p : Proxy} {host : String} (h : p.Sendable host)
    (port : Nat) (w : Wire) :
    (∀ rest, (∃ sent, establish resolve p host port w = (.ok (), ⟨rest, sent⟩)) ↔
      ∃ answer, p.Grants answer ∧ w.incoming = answer ++ rest) ∧
    ((∀ answer, p.Grants answer → ¬ answer <+: w.incoming) ↔
      ∃ error w', establish resolve p host port w = (.error error, w')) := by
  have hreads : Reads (establish resolve p host port) fun _ => p.Grants := by
    unfold establish Grants
    cases hp : p.protocol with
    | http => exact reads_http p.credentials host port
    | socks5 remoteNames => exact reads_socks5 resolve hp h port
  refine ⟨fun rest => hreads w () rest, ?_⟩
  cases hw : establish resolve p host port w with
  | mk result w' =>
    cases result with
    | ok =>
      obtain ⟨answer, hg, hin⟩ := (hreads w () w'.incoming).mp ⟨w'.sent, hw⟩
      refine ⟨fun hnone => absurd ⟨w'.incoming, hin.symm⟩ (hnone answer hg), ?_⟩
      rintro ⟨error, w', heq⟩
      cases heq
    | error error =>
      refine ⟨fun _ => ⟨error, w', rfl⟩, fun _ answer hg ⟨rest, hin⟩ => ?_⟩
      obtain ⟨sent, hok⟩ := (hreads w () rest).mpr ⟨answer, hg, hin.symm⟩
      rw [hw] at hok
      cases hok

/-- A password, a name as the bound address, and two bytes of the tunnel. -/
theorem establish_ok_iff_password :
    let resolve : Resolver := fun _ => .error earlyEof
    let p : Proxy := ⟨default, "localhost", 1080, .socks5 true, some ⟨"user", some "word"⟩⟩
    let w : Wire := ⟨[5, 2, 1, 0] ++ [5, 0, 0, 3, 2, 0x61, 0x62, 0x1f, 0x90] ++ [0x68, 0x69], []⟩
    p.Sendable "tap.test" ∧
    p.Grants ([5, 2, 1, 0] ++ [5, 0, 0, 3, 2, 0x61, 0x62, 0x1f, 0x90]) ∧
    ∃ sent, establish resolve p "tap.test" 443 w = (.ok (), ⟨[0x68, 0x69], sent⟩) := by
  intro resolve p w
  have hsendable : p.Sendable "tap.test" := by
    refine ⟨fun c hc => ?_, .inr ⟨rfl, by decide +kernel⟩⟩
    cases hc
    exact ⟨by decide +kernel, by decide +kernel⟩
  have hgrants : p.Grants ([5, 2, 1, 0] ++ [5, 0, 0, 3, 2, 0x61, 0x62, 0x1f, 0x90]) :=
    ⟨_, _, rfl, .password rfl 1,
      reply_cons_iff.mpr ⟨rfl, rfl, .inr (.inr ⟨rfl, 2, _, rfl, rfl⟩)⟩⟩
  exact ⟨hsendable, hgrants,
    ((establish_ok_iff resolve hsendable 443 w).1 _).mpr ⟨_, hgrants, rfl⟩⟩

end Wiretap.Proxy
