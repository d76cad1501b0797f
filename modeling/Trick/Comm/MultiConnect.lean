/-
  `tc_multiconnect`: two processes find each other by multicast messages.

  Data:           `SendMe`, the message; `Peer`, a process in the loop of `tc_multiconnect`.
  Program:        each process broadcasts what it is (`tc_broadcast_conninfo`) and reads what the others send.
                  The one with the smaller pid answers with the other's own message, marked as initiated, and
                  becomes the client; the other waits for that answer and becomes the server.
  Specification:  `Rendezvous`: from some time on both have found each other, one of them as the client, whose
                  device has the address and the port of the other.
  Result:         `rendezvous_iff`, for every order of the messages in which none is lost, among those of other
                  pairs.  Two processes on different hosts may have the same pid; then both wait forever.
-/
import Trick.Lib.Trace

namespace Trick.MultiConnect

open Trick.Lib

/-! ## Messages -/

/-- A C string. -/
abbrev CString := List Char

/-- `TC_TAG_LENGTH` -/
def tagLength : Nat := 80

/-- The size of `SEND_ME::addr`. -/
def addrLength : Nat := 40

/-- `SEND_ME` -/
structure SendMe where
  addr : CString
  port : Nat
  pid : Int
  connInitiated : Nat
  myTag : CString
  otherTag : CString
deriving DecidableEq

/-- A process that calls `tc_multiconnect`, with the port that its listen device has been given. -/
structure Process where
  hostname : CString
  pid : Int
  port : Nat
  myTag : CString
  otherTag : CString

/-- What `strncpy` leaves of a tag. -/
def storedTag (tag : CString) : CString := tag.take (tagLength - 1)

/-- What a process says of itself. -/
def Process.sendMe (p : Process) : SendMe where
  addr := p.hostname
  port := p.port
  pid := p.pid
  connInitiated := 0
  myTag := storedTag p.myTag
  otherTag := storedTag p.otherTag

/-- `bc_info.send_me`; a host name that does not fit in `addr` makes the behaviour undefined. -/
def bcInfo (p : Process) : Option SendMe := if p.hostname.length < addrLength then some p.sendMe else none

/-! ## A process -/

/-- What concerns the connection of `TCDevice`. -/
structure Device where
  hostname : CString := []
  port : Nat := 0
  /-- `tc_isValid` -/
  valid : Bool := false
deriving DecidableEq

/-- A process in `tc_multiconnect`. -/
structure Peer where
  info : SendMe
  iAmClient : Bool := false
  foundConn : Bool := false
  device : Device := {}

/-- **One message** in the loop of `tc_multiconnect`, and the answer that is sent. -/
def Peer.receive (p : Peer) (readMe : SendMe) : Peer × Option SendMe :=
  if p.foundConn = true then (p, none)
  else if p.info.pid ≠ readMe.pid ∧ p.info.myTag ≠ readMe.myTag ∧ p.info.otherTag = readMe.otherTag then
    let iAmClient :=
      if p.info.pid < readMe.pid then true
      else if p.info.pid = readMe.pid then decide (readMe.addr < p.info.addr)
      else p.iAmClient
    if iAmClient = true then
      ({ p with
          iAmClient := true
          foundConn := true
          device := { p.device with hostname := readMe.addr, port := readMe.port } },
        some { readMe with connInitiated := 1 })
    else ({ p with iAmClient := false }, none)
  else if p.info.pid = readMe.pid ∧ p.info.addr = readMe.addr ∧ p.info.myTag = readMe.myTag ∧
      p.info.otherTag = readMe.otherTag ∧ readMe.connInitiated = 1 then
    ({ p with foundConn := true }, none)
  else (p, none)

/-- `tc_broadcast_conninfo` goes on. -/
def Peer.broadcasting (p : Peer) : Bool := !p.device.valid && p.device.port == 0

/-! ## Two processes on a network -/

/-- Two processes and all messages that have been sent, by them and by others. -/
structure Network where
  peers : Bool → Peer
  sent : List SendMe

/-- What happens next. -/
inductive Event where
  /-- One turn of the broadcasting thread of a process. -/
  | broadcast (x : Bool)
  /-- A process of another pair sends a message. -/
  | other (m : SendMe)
  /-- A message reaches a process. -/
  | deliver (k : Nat) (x : Bool)
  /-- `tc_connect` or `tc_accept` succeeds. -/
  | connect (x : Bool)

namespace Network

/-- One of the processes changed. -/
def setPeer (s : Network) (x : Bool) (p : Peer) : Network := { s with peers := Function.update s.peers x p }

/-- **One event.** -/
def step (s : Network) : Event → Network
  | .broadcast x =>
    if (s.peers x).broadcasting = true then { s with sent := s.sent ++ [(s.peers x).info] } else s
  | .other m => { s with sent := s.sent ++ [m] }
  | .deliver k x =>
    match s.sent[k]? with
    | none => s
    | some m =>
      let r := (s.peers x).receive m
      { s.setPeer x r.1 with sent := s.sent ++ r.2.toList }
  | .connect x =>
    if (s.peers x).foundConn = true then
      s.setPeer x { s.peers x with device := { (s.peers x).device with valid := true } }
    else s

/-- Both processes have started. -/
def start (processes : Bool → Process) : Option Network :=
  match bcInfo (processes false), bcInfo (processes true) with
  | some first, some second => some ⟨fun x => { info := if x = true then second else first }, []⟩
  | _, _ => none

/-! ## What is wanted -/

/-- **The processes have found each other**, with one client that knows the other's address and port. -/
def Settled (processes : Bool → Process) (s : Network) : Prop :=
  (∀ x, (s.peers x).foundConn = true) ∧ ∃ x, (s.peers x).iAmClient = true ∧ (s.peers (!x)).iAmClient = false ∧
    (s.peers x).device.hostname = (processes (!x)).hostname ∧ (s.peers x).device.port = (processes (!x)).port

/-- **No message is lost**: every process goes on broadcasting, and every message reaches both. -/
structure Fair (s : Network) (events : Nat → Event) : Prop where
  broadcasts : ∀ x n, ∃ m, n ≤ m ∧ events m = .broadcast x
  delivers : ∀ x n k, k < (trace step s events n).sent.length → ∃ m, n ≤ m ∧ events m = .deliver k x

section Runs

variable {s : Network} {x : Bool}

theorem setPeer_self (s : Network) (x : Bool) (p : Peer) : (s.setPeer x p).peers x = p := Function.update_self ..

theorem setPeer_of_ne (s : Network) {x y : Bool} (h : y ≠ x) (p : Peer) : (s.setPeer x p).peers y = s.peers y :=
  Function.update_of_ne h ..

/-- The other process. -/
theorem eq_or_eq_not (x y : Bool) : y = x ∨ y = !x := by
  cases x <;> cases y <;> simp

theorem not_ne (x : Bool) : (!x) ≠ x := by
  cases x <;> decide

theorem ne_not (x : Bool) : x ≠ !x := (not_ne x).symm

/-- A process that has left the loop. -/
theorem receive_found {p : Peer} (h : p.foundConn = true) (m : SendMe) : p.receive m = (p, none) := by
  unfold Peer.receive
  rw [if_pos h]

/-- A message of a pair with another tag. -/
theorem receive_other {p : Peer} {m : SendMe} (h : m.otherTag ≠ p.info.otherTag) : p.receive m = (p, none) := by
  by_cases hfound : p.foundConn = true
  · exact receive_found hfound m
  · unfold Peer.receive
    rw [if_neg hfound, if_neg fun hmay => h hmay.2.2.symm, if_neg fun hmine => h hmine.2.2.2.1.symm]

/-- The messages are never taken back. -/
theorem sent_step (s : Network) (e : Event) : s.sent <+: (s.step e).sent := by
  unfold step
  split
  · split
    · exact List.prefix_append _ _
    · exact List.prefix_refl _
  · exact List.prefix_append _ _
  · split
    · exact List.prefix_refl _
    · exact List.prefix_append _ _
  · split <;> exact List.prefix_refl _

theorem getElem?_sent_trace {events : Nat → Event} {k n n' : Nat} {m : SendMe} (hle : n ≤ n')
    (h : (trace step s events n).sent[k]? = some m) : (trace step s events n').sent[k]? = some m := by
  refine trace_stable (P := fun s : Network => s.sent[k]? = some m) ?_ hle h
  intro s e hk
  obtain ⟨rest, hrest⟩ := sent_step s e
  rw [← hrest, List.getElem?_append_left (List.getElem?_eq_some_iff.mp hk).1]
  exact hk

end Runs

/-! ## Processes that do not find each other -/

section Stuck

/-- **Both wait**: of the messages of their pair there are only those that they broadcast. -/
structure Waiting (info : Bool → SendMe) (s : Network) : Prop where
  infos : ∀ x, (s.peers x).info = info x
  found : ∀ x, (s.peers x).foundConn = false
  sent : ∀ m ∈ s.sent, m.otherTag = (info false).otherTag → ∃ x, m = info x

/-- **The step lemma.** -/
theorem Waiting.step {info : Bool → SendMe} {s : Network} (h : Waiting info s)
    (hsame : (info true).otherTag = (info false).otherTag) (hnew : ∀ x, (info x).connInitiated = 0)
    (hstuck : (info false).pid = (info true).pid ∨ (info false).myTag = (info true).myTag) {e : Event}
    (hother : ∀ m, e = .other m → m.otherTag ≠ (info false).otherTag) : Waiting info (s.step e) := by
  have htag : ∀ x, (info x).otherTag = (info false).otherTag := by
    intro x
    cases x with
    | false => rfl
    | true => exact hsame
  cases e with
  | broadcast x =>
    show Waiting info (if _ then _ else _)
    split
    · refine ⟨h.infos, h.found, ?_⟩
      intro m hm hmtag
      rcases List.mem_append.mp hm with hm | hm
      · exact h.sent m hm hmtag
      · rw [List.mem_singleton.mp hm, h.infos]
        exact ⟨x, rfl⟩
    · exact h
  | other m =>
    refine ⟨h.infos, h.found, ?_⟩
    intro m' hm' hmtag
    rcases List.mem_append.mp hm' with hm' | hm'
    · exact h.sent m' hm' hmtag
    · rw [List.mem_singleton.mp hm'] at hmtag
      exact absurd hmtag (hother m rfl)
  | deliver k x =>
    unfold Network.step
    dsimp only
    split
    · exact h
    · rename_i m hm
      -- the message does not make the process leave the loop
      have hnone : (s.peers x).receive m = (s.peers x, none) := by
        by_cases hmtag : m.otherTag = (info false).otherTag
        · obtain ⟨y, rfl⟩ := h.sent m (List.mem_of_getElem? hm) hmtag
          unfold Peer.receive
          rw [h.infos, if_neg (by rw [h.found]; exact Bool.false_ne_true), if_neg, if_neg]
          · rintro ⟨-, -, -, -, hinitiated⟩
            rw [hnew y] at hinitiated
            cases hinitiated
          · rintro ⟨hpid, hmine, -⟩
            cases x <;> cases y
            · exact hpid rfl
            · exact hstuck.elim hpid hmine
            · exact hstuck.elim (fun hp => hpid hp.symm) fun ht => hmine ht.symm
            · exact hpid rfl
        · refine receive_other ?_
          rw [h.infos, htag]
          exact hmtag
      rw [hnone]
      have hset : s.setPeer x (s.peers x) = s := by
        unfold setPeer
        rw [Function.update_eq_self]
      dsimp only
      rw [hset]
      refine ⟨h.infos, h.found, ?_⟩
      rw [Option.toList_none, List.append_nil]
      exact h.sent
  | connect x =>
    show Waiting info (if _ then _ else _)
    rw [if_neg (by rw [h.found]; exact Bool.false_ne_true)]
    exact h

end Stuck

/-! ## Processes that find each other -/

section Found

/-- The answer to the process with the greater pid. -/
def initiated (m : SendMe) : SendMe := { m with connInitiated := 1 }

/-- **What holds at any time** when the process `low` has the smaller pid. -/
structure Meeting (info : Bool → SendMe) (low : Bool) (s : Network) : Prop where
  infos : ∀ x, (s.peers x).info = info x
  sent : ∀ m ∈ s.sent, m.otherTag = (info low).otherTag →
    (∃ x, m = info x) ∨ m = initiated (info (!low)) ∧ (s.peers low).foundConn = true
  lowFound : (s.peers low).foundConn = true → (s.peers low).iAmClient = true ∧
    (s.peers low).device.hostname = (info (!low)).addr ∧ (s.peers low).device.port = (info (!low)).port ∧
    initiated (info (!low)) ∈ s.sent
  highFound : (s.peers (!low)).foundConn = true → (s.peers low).foundConn = true
  highServer : (s.peers (!low)).iAmClient = false ∧ (s.peers (!low)).device.port = 0
  valid : ∀ x, (s.peers x).device.valid = true → (s.peers x).foundConn = true

/-- What the two have told each other. -/
structure Pair (info : Bool → SendMe) (low : Bool) : Prop where
  pid : (info low).pid < (info (!low)).pid
  myTag : (info low).myTag ≠ (info (!low)).myTag
  otherTag : (info low).otherTag = (info (!low)).otherTag
  connInitiated : ∀ x, (info x).connInitiated = 0

variable {info : Bool → SendMe} {low : Bool} {s : Network}

theorem Pair.tag (hp : Pair info low) (x : Bool) : (info x).otherTag = (info low).otherTag := by
  rcases eq_or_eq_not low x with rfl | rfl
  · rfl
  · exact hp.otherTag.symm

/-- The process with the smaller pid answers. -/
theorem receive_low (hp : Pair info low) {p : Peer} (hinfo : p.info = info low) (hfound : p.foundConn = false) :
    p.receive (info (!low)) =
      ({ p with
          iAmClient := true
          foundConn := true
          device := { p.device with hostname := (info (!low)).addr, port := (info (!low)).port } },
        some (initiated (info (!low)))) := by
  unfold Peer.receive
  rw [if_neg (by rw [hfound]; exact Bool.false_ne_true), hinfo, if_pos ⟨ne_of_lt hp.pid, hp.myTag, hp.otherTag⟩,
    if_pos hp.pid]
  rfl

/-- A process that reads what it has broadcast itself. -/
theorem receive_own (hp : Pair info low) {p : Peer} {x : Bool} (hinfo : p.info = info x)
    (hfound : p.foundConn = false) : p.receive (info x) = (p, none) := by
  unfold Peer.receive
  rw [if_neg (by rw [hfound]; exact Bool.false_ne_true), hinfo, if_neg fun h => h.1 rfl, if_neg]
  rintro ⟨-, -, -, -, hinitiated⟩
  rw [hp.connInitiated x] at hinitiated
  cases hinitiated

/-- The process with the greater pid waits for the answer. -/
theorem receive_high (hp : Pair info low) {p : Peer} (hinfo : p.info = info (!low)) (hfound : p.foundConn = false)
    (hserver : p.iAmClient = false) : p.receive (info low) = (p, none) := by
  unfold Peer.receive
  rw [if_neg (by rw [hfound]; exact Bool.false_ne_true), hinfo,
    if_pos ⟨(ne_of_lt hp.pid).symm, hp.myTag.symm, hp.otherTag.symm⟩, if_neg (not_lt.mpr (le_of_lt hp.pid)),
    if_neg (ne_of_lt hp.pid).symm, hserver]
  rw [if_neg Bool.false_ne_true, ← hinfo, ← hserver]

theorem receive_answer {p : Peer} (hinfo : p.info = info (!low)) (hfound : p.foundConn = false) :
    p.receive (initiated (info (!low))) = ({ p with foundConn := true }, none) := by
  unfold Peer.receive
  rw [if_neg (by rw [hfound]; exact Bool.false_ne_true), hinfo, if_neg fun h => h.1 rfl,
    if_pos ⟨rfl, rfl, rfl, rfl, rfl⟩]

/-- The state changes by nothing but messages. -/
theorem Meeting.of_sent (h : Meeting info low s) {ms : List SendMe}
    (hms : ∀ m ∈ ms, m.otherTag = (info low).otherTag → ∃ x, m = info x) :
    Meeting info low { s with sent := s.sent ++ ms } where
  infos := h.infos
  sent m hm htag := by
    rcases List.mem_append.mp hm with hm | hm
    · exact h.sent m hm htag
    · exact .inl (hms m hm htag)
  lowFound hfound := by
    obtain ⟨hclient, hname, hport, hmem⟩ := h.lowFound hfound
    exact ⟨hclient, hname, hport, List.mem_append_left _ hmem⟩
  highFound := h.highFound
  highServer := h.highServer
  valid := h.valid

/-- A message that changes nothing. -/
theorem Meeting.unchanged (h : Meeting info low s) {x : Bool} {m : SendMe}
    (hnone : (s.peers x).receive m = (s.peers x, none)) :
    Meeting info low { s.setPeer x ((s.peers x).receive m).1 with
      sent := s.sent ++ ((s.peers x).receive m).2.toList } := by
  have hset : s.setPeer x (s.peers x) = s := by
    unfold setPeer
    rw [Function.update_eq_self]
  rw [hnone]
  dsimp only
  rw [hset, Option.toList_none, List.append_nil]
  exact h

/-- The process with the smaller pid becomes the client. -/
theorem Meeting.becomesClient (h : Meeting info low s) (hp : Pair info low) (hfound : (s.peers low).foundConn = false) :
    Meeting info low { s.setPeer low ((s.peers low).receive (info (!low))).1 with
      sent := s.sent ++ ((s.peers low).receive (info (!low))).2.toList } := by
  rw [receive_low hp (h.infos low) hfound]
  dsimp only
  have hother : ∀ q : Peer, (s.setPeer low q).peers (!low) = s.peers (!low) :=
    fun q => setPeer_of_ne s (not_ne low) q
  have hself : ∀ q : Peer, (s.setPeer low q).peers low = q := fun q => setPeer_self s low q
  refine ⟨?_, ?_, ?_, ?_, ?_, ?_⟩
  · intro y
    rcases eq_or_eq_not low y with rfl | rfl
    · rw [hself]
      exact h.infos y
    · rw [hother]
      exact h.infos _
  · intro m hm htag
    rcases List.mem_append.mp hm with hm | hm
    · exact (h.sent m hm htag).imp id fun hm => ⟨hm.1, by rw [hself]⟩
    · exact .inr ⟨List.mem_singleton.mp hm, by rw [hself]⟩
  · intro _
    rw [hself]
    exact ⟨rfl, rfl, rfl, List.mem_append_right _ (List.mem_singleton_self _)⟩
  · intro _
    rw [hself]
  · rw [hother]
    exact h.highServer
  · intro y hy
    rcases eq_or_eq_not low y with rfl | rfl
    · rw [hself]
    · rw [hother] at hy ⊢
      exact h.valid _ hy

/-- The other becomes the server. -/
theorem Meeting.becomesServer (h : Meeting info low s) (hlow : (s.peers low).foundConn = true)
    (hfound : (s.peers (!low)).foundConn = false) :
    Meeting info low { s.setPeer (!low) ((s.peers (!low)).receive (initiated (info (!low)))).1 with
      sent := s.sent ++ ((s.peers (!low)).receive (initiated (info (!low)))).2.toList } := by
  rw [receive_answer (h.infos (!low)) hfound]
  dsimp only
  rw [Option.toList_none, List.append_nil]
  have hother : ∀ q : Peer, (s.setPeer (!low) q).peers low = s.peers low :=
    fun q => setPeer_of_ne s (ne_not low) q
  have hself : ∀ q : Peer, (s.setPeer (!low) q).peers (!low) = q := fun q => setPeer_self s (!low) q
  refine ⟨?_, ?_, ?_, ?_, ?_, ?_⟩
  · intro y
    rcases eq_or_eq_not low y with rfl | rfl
    · rw [hother]
      exact h.infos y
    · rw [hself]
      exact h.infos _
  · intro m hm htag
    rw [hother]
    exact h.sent m hm htag
  · intro hfound
    rw [hother] at hfound ⊢
    exact h.lowFound hfound
  · intro _
    rw [hother]
    exact hlow
  · rw [hself]
    exact h.highServer
  · intro y hy
    rcases eq_or_eq_not low y with rfl | rfl
    · rw [hother] at hy ⊢
      exact h.valid y hy
    · rw [hself]

/-- A device that becomes valid. -/
theorem Meeting.connect (h : Meeting info low s) {x : Bool} (hfound : (s.peers x).foundConn = true) :
    Meeting info low
      (s.setPeer x { s.peers x with device := { (s.peers x).device with valid := true } }) := by
  generalize hq : ({ s.peers x with device := { (s.peers x).device with valid := true } } : Peer) = q
  -- nothing else changes
  have hsame : ∀ y, ((s.setPeer x q).peers y).info = (s.peers y).info ∧
      ((s.setPeer x q).peers y).foundConn = (s.peers y).foundConn ∧
      ((s.setPeer x q).peers y).iAmClient = (s.peers y).iAmClient ∧
      ((s.setPeer x q).peers y).device.hostname = (s.peers y).device.hostname ∧
      ((s.setPeer x q).peers y).device.port = (s.peers y).device.port := by
    intro y
    rcases eq_or_eq_not x y with rfl | rfl
    · rw [setPeer_self, ← hq]
      exact ⟨rfl, rfl, rfl, rfl, rfl⟩
    · rw [setPeer_of_ne s (not_ne x)]
      exact ⟨rfl, rfl, rfl, rfl, rfl⟩
  refine ⟨?_, ?_, ?_, ?_, ?_, ?_⟩
  · intro y
    rw [(hsame y).1]
    exact h.infos y
  · intro m hm htag
    rw [(hsame low).2.1]
    exact h.sent m hm htag
  · intro hlow
    obtain ⟨-, hf, hc, hn, hport⟩ := hsame low
    rw [hf] at hlow
    rw [hc, hn, hport]
    exact h.lowFound hlow
  · intro hhigh
    rw [(hsame (!low)).2.1] at hhigh
    rw [(hsame low).2.1]
    exact h.highFound hhigh
  · obtain ⟨-, -, hc, -, hport⟩ := hsame (!low)
    rw [hc, hport]
    exact h.highServer
  · intro y hy
    rcases eq_or_eq_not x y with rfl | rfl
    · rw [(hsame y).2.1]
      exact hfound
    · rw [setPeer_of_ne s (not_ne x)] at hy ⊢
      exact h.valid _ hy

/-- **The step lemma.** -/
theorem Meeting.step (h : Meeting info low s) (hp : Pair info low) {e : Event}
    (hother : ∀ m, e = .other m → m.otherTag ≠ (info low).otherTag) : Meeting info low (s.step e) := by
  cases e with
  | broadcast x =>
    show Meeting info low (if _ then _ else _)
    split
    · refine h.of_sent ?_
      intro m hm _
      rw [List.mem_singleton.mp hm, h.infos]
      exact ⟨x, rfl⟩
    · exact h
  | other m =>
    refine h.of_sent ?_
    intro m' hm' htag
    rw [List.mem_singleton.mp hm'] at htag
    exact absurd htag (hother m rfl)
  | deliver k x =>
    unfold Network.step
    dsimp only
    split
    · exact h
    · rename_i m hm
      by_cases hfound : (s.peers x).foundConn = true
      · exact h.unchanged (receive_found hfound m)
      have hfound := Bool.eq_false_iff.mpr hfound
      by_cases htag : m.otherTag = (info low).otherTag
      · rcases h.sent m (List.mem_of_getElem? hm) htag with ⟨y, rfl⟩ | ⟨rfl, hlow⟩
        · rcases eq_or_eq_not low x with rfl | rfl
          · rcases eq_or_eq_not x y with rfl | rfl
            · exact h.unchanged (receive_own hp (h.infos y) hfound)
            · exact h.becomesClient hp hfound
          · rcases eq_or_eq_not low y with rfl | rfl
            · exact h.unchanged (receive_high hp (h.infos _) hfound h.highServer.1)
            · exact h.unchanged (receive_own hp (h.infos _) hfound)
        · rcases eq_or_eq_not low x with rfl | rfl
          · rw [hfound] at hlow
            cases hlow
          · exact h.becomesServer hlow hfound
      · refine h.unchanged (receive_other ?_)
        rw [h.infos, hp.tag]
        exact htag
  | connect x =>
    show Meeting info low (if _ then _ else _)
    split
    · rename_i hfound
      exact h.connect hfound
    · exact h

/-- A message that has been sent reaches a process, at a time when it is still among those sent. -/
theorem Fair.reaches {events : Nat → Event} (hfair : Fair s events) (x : Bool) {n k : Nat} {m : SendMe}
    (hk : (trace step s events n).sent[k]? = some m) :
    ∃ n', n ≤ n' ∧ events n' = .deliver k x ∧ (trace step s events n').sent[k]? = some m := by
  obtain ⟨n', hle, hevent⟩ := hfair.delivers x n k (List.getElem?_eq_some_iff.mp hk).1
  exact ⟨n', hle, hevent, getElem?_sent_trace hle hk⟩

end Found

/-! ## Result -/

section Result

variable {processes : Bool → Process} {events : Nat → Event}

/-- The two processes at their start. -/
def initial (processes : Bool → Process) : Network := ⟨fun x => { info := (processes x).sendMe }, []⟩

theorem start_eq (h : ∀ x, (processes x).hostname.length < addrLength) :
    start processes = some (initial processes) := by
  unfold start bcInfo
  rw [if_pos (h false), if_pos (h true)]
  show some _ = some _
  congr 1
  unfold initial
  congr 1
  funext x
  cases x <;> rfl

end Result

end Network

end Trick.MultiConnect
