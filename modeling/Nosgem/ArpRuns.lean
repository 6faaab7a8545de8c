/-
This file puts the operations of ARP.CPP together: packets to be sent, packets
that arrive and requests that get old, in any order. One lemma says what any
event does, and three results about every run follow from it by induction. The
tables do what the specification allows. An Ethernet address is used only when a
packet gave it, for a machine that a packet introduced: it asked for this
machine, or it answered after it was asked for. And the network is not flooded:
four broadcasts for a question, one response for a request.

What a machine says about others is believed once those are known; so is what
anybody says in the name of a machine that is known. The specification does not
hide this: `unasked` is the step that does it.
-/

import Nosgem.Neighbours

namespace Nosgem.Arp

open Buffers CacheTable

instance (host : Host) (ipDest : IpAddr) : Decidable (IsBroadcast host ipDest) :=
  inferInstanceAs (Decidable (_ ∨ _))

/-- The address that an event asks for, unless it is known. -/
def Event.wants (host : Host) : Event → Option IpAddr
  | .send ipDest _ =>
    if IsBroadcast host ipDest then none else some (nextHop host ipDest)
  | .probe _ => some host.myIpAddr
  | _ => none

theorem wants_send {host : Host} {ipDest : IpAddr} (one : ¬IsBroadcast host ipDest)
    (ticks : ClockTicks) : (Event.send ipDest ticks).wants host = some (nextHop host ipDest) :=
  if_neg one

/-- An event that left a question for an address open. -/
def Asks (host : Host) (ip : IpAddr) (entry : Event × Option EthAddr) : Bool :=
  entry.1.wants host = some ip ∧ entry.2 = none

/-- A request for this machine, of a machine with these addresses. -/
def Greets (host : Host) (ha : EthAddr) (ip : IpAddr) (entry : Event × Option EthAddr) : Bool :=
  match entry.1 with
  | .packet ah _ _ => ah.IsForMe host ∧ ah.senderHa = ha ∧ ah.senderIp = ip
  | _ => false

variable {host : Host} {arp : State}

theorem asks_iff {event : Event} {target : IpAddr} (wants : event.wants host = some target)
    {ip : IpAddr} {answer : Option EthAddr} :
    Asks host ip (event, answer) ↔ ip = target ∧ answer = none := by
  rw [Asks, decide_eq_true_iff, wants, Option.some.injEq, eq_comm]

/-- The packets that an event sends are paid for by what it asks. -/
structure State.Accounts (host : Host) (arp : State) (entry : Event × Option EthAddr)
    (next : State) : Prop where
  owed : ∀ ip, next.owed ip ≤ arp.owed ip + if Asks host ip entry then 4 else 0
  responses : ∀ ha ip, next.sent.count (.response ha ip) =
    arp.sent.count (.response ha ip) + if Greets host ha ip entry then 1 else 0

theorem sum_left_idle {slots : List Pending} (idle : ∀ slot ∈ slots, ¬slot.active) (ip : IpAddr) :
    (slots.map fun slot => slot.left ip).sum = 0 := by
  induction slots with
  | nil => rfl
  | cons slot slots inductionHypothesis =>
    rw [List.map_cons, List.sum_cons, left_idle (idle slot List.mem_cons_self),
      inductionHypothesis fun other member => idle other (List.mem_cons_of_mem _ member)]

/-- Nothing is asked for in a table that was cleared. -/
theorem clear_spec (table : CacheTable.Sound id arp.arpTable) :
    arp.clearPendingTable.Sound ∧ arp.clearPendingTable.neighbours = ⟨arp.neighbours.known, ∅⟩ ∧
      ∀ ip, arp.clearPendingTable.owed ip = arp.sent.count (.request ip) := by
  have idle : ∀ slot ∈ arp.clearPendingTable.pending.toList, slot.attempts = -1 := by
    intro slot member
    have member : slot ∈ (arp.pending.map _).toList := member
    rw [Vector.toList_map] at member
    obtain ⟨old, -, rfl⟩ := List.mem_map.mp member
    rfl
  have none : askedBy arp.clearPendingTable.pending.toList = [] := by
    refine List.eq_nil_iff_forall_not_mem.mpr fun ip member => ?_
    obtain ⟨slot, inTable, active, -⟩ := mem_askedBy.mp member
    exact of_decide_eq_true active (idle slot inTable)
  refine ⟨⟨table, ?_, ?_, fun slot member => ?_⟩, congrArg (Neighbours.mk _) ?_, fun ip => ?_⟩
  · rw [none]
    exact List.nodup_nil
  · rw [none]
    rfl
  · rw [idle slot member]
    decide
  · rw [none]
    exact Set.ext fun ip => iff_of_false List.not_mem_nil (Set.notMem_empty ip)
  · rw [State.owed, sum_left_idle fun slot inTable active =>
      of_decide_eq_true active (idle slot inTable)]
    rfl

theorem State.Sound.setDestEth (sound : arp.Sound) (ipDest : IpAddr) (ticks : ClockTicks) :
    ∃ answer next, arp.setDestEth host ipDest ticks = .ok (answer, next) ∧ next.Sound ∧
      arp.neighbours.Step host (.send ipDest ticks) answer next.neighbours ∧
      arp.Accounts host (.send ipDest ticks, answer) next := by
  have quiet (answer : Option EthAddr) (some : answer.isSome) :
      arp.Accounts host (.send ipDest ticks, answer) arp :=
    ⟨fun _ => Nat.le_add_right _ _, fun _ _ => rfl⟩
  by_cases all : IsBroadcast host ipDest
  · refine ⟨some ethBroadcast, arp, ?_, sound, .broadcast all, quiet _ rfl⟩
    rw [State.setDestEth]
    by_cases everyone : ipDest = ipBroadcastNonRoutable
    · rw [if_pos everyone]
      rfl
    · obtain ⟨near, ones⟩ := all.resolve_left everyone
      rw [if_neg everyone, if_neg (not_not_intro near), if_pos ones]
      rfl
  have wants := wants_send all ticks
  obtain ⟨everyone, ones⟩ := not_or.mp all
  obtain ⟨answer, next, resolves, sound', resolved, owed, sent⟩ :=
    sound.resolve (nextHop host ipDest) ticks
  refine ⟨answer, next, ?_, sound', .send all resolved, fun ip => ?_, sent⟩
  · rw [State.setDestEth, if_neg everyone]
    by_cases near : host.myIpAddr &&& host.netmask = ipDest &&& host.netmask
    · rw [if_neg (not_not_intro near), if_neg fun both => ones ⟨near, both⟩]
      rwa [nextHop, if_pos near] at resolves
    · rw [if_pos near]
      rwa [nextHop, if_neg near] at resolves
  · refine (owed ip).trans_eq ?_
    simp only [asks_iff wants]

/-- The step lemma: whatever happens next, nothing goes wrong, the tables stay sound, and what they
stand for makes a step of the specification. -/
theorem State.Sound.step (sound : arp.Sound) (host : Host) (event : Event) :
    ∃ answer next, Arp.step host arp event = .ok (answer, next) ∧ next.Sound ∧
      arp.neighbours.Step host event answer next.neighbours ∧
      arp.Accounts host (event, answer) next := by
  cases event with
  | send ipDest ticks => exact sound.setDestEth ipDest ticks
  | probe ticks =>
    obtain ⟨answer, next, resolves, sound', resolved, owed, sent⟩ :=
      sound.resolve host.myIpAddr ticks
    refine ⟨answer, next, resolves, sound', .probe resolved, fun ip => ?_, sent⟩
    refine (owed ip).trans_eq ?_
    simp only [asks_iff (show (Event.probe ticks).wants host = some host.myIpAddr from rfl)]
  | packet ah now later =>
    obtain ⟨next, processes, sound', steps, owed, sent⟩ := sound.processArp host ah now later
    refine ⟨none, next, by rw [Arp.step, processes]; rfl, sound', steps,
      fun ip => (owed ip).trans (Nat.le_add_right _ _), fun ha ip => ?_⟩
    rw [sent]
    simp only [Greets, decide_eq_true_eq]
  | drive ticks =>
    obtain ⟨next, drives, driven⟩ := sound.driveArp ticks
    refine ⟨none, next, by rw [Arp.step, drives]; rfl, driven.sound, ?_,
      fun ip => (driven.owed ip).trans (Nat.le_add_right _ _), driven.responses⟩
    have same : next.neighbours = ⟨arp.neighbours.known, next.neighbours.asked⟩ :=
      congrArg (fun known => Neighbours.mk known _) driven.known
    rw [same]
    exact .drive driven.asked
  | clear =>
    obtain ⟨sound', cleared, owed⟩ := clear_spec sound.table
    refine ⟨none, arp.clearPendingTable, rfl, sound', ?_, fun ip => ?_, fun _ _ => rfl⟩
    · rw [cleared]
      exact .clear
    · rw [owed, State.owed, Nat.add_assoc]
      exact Nat.le_add_right _ _

/-! ### Runs -/

/-- The runs of the class over any events in any order, with the answers that they were given. -/
inductive Runs (host : Host) : State → List (Event × Option EthAddr) → State → Prop where
  | refl (arp : State) : Runs host arp [] arp
  | step {arp middle next : State} {event : Event} {answer : Option EthAddr}
      {trace : List (Event × Option EthAddr)} (run : Runs host arp trace middle)
      (steps : Arp.step host middle event = .ok (answer, next)) :
      Runs host arp (trace ++ [(event, answer)]) next

/-- The runs of the specification. -/
inductive Neighbours.Runs (host : Host) (start : Neighbours) :
    List (Event × Option EthAddr) → Neighbours → Prop where
  | refl : Neighbours.Runs host start [] start
  | step {middle next : Neighbours} {event : Event} {answer : Option EthAddr}
      {trace : List (Event × Option EthAddr)} (run : Neighbours.Runs host start trace middle)
      (steps : middle.Step host event answer next) :
      Neighbours.Runs host start (trace ++ [(event, answer)]) next

/-- What is known at the start: on a serial line that the gateway is reached by a broadcast. -/
def Neighbours.initial (host : Host) (slip : Bool) : Neighbours :=
  ⟨if slip then Function.update (fun _ => none) host.gateway (some ethBroadcast)
    else fun _ => none, ∅⟩

/-- The run lemma. -/
theorem Runs.refines {final : State} {trace : List (Event × Option EthAddr)}
    (run : Runs host arp trace final) (sound : arp.Sound) :
    final.Sound ∧ arp.neighbours.Runs host trace final.neighbours ∧
      (∀ ip, final.owed ip ≤ arp.owed ip + 4 * trace.countP (Asks host ip)) ∧
      ∀ ha ip, final.sent.count (.response ha ip) =
        arp.sent.count (.response ha ip) + trace.countP (Greets host ha ip) := by
  induction run with
  | refl => exact ⟨sound, .refl, fun _ => Nat.le_add_right _ _, fun _ _ => rfl⟩
  | @step middle next event answer trace _ steps inductionHypothesis =>
    obtain ⟨middleSound, refines, owed, responses⟩ := inductionHypothesis
    obtain ⟨answer', next', steps', sound', refines', owed', responses'⟩ :=
      middleSound.step host event
    obtain ⟨rfl, rfl⟩ := Prod.mk.inj (Except.ok.inj (steps'.symm.trans steps))
    refine ⟨sound', refines.step refines', fun ip => ?_, fun ha ip => ?_⟩
    · have first := owed ip
      have last := owed' ip
      rw [List.countP_append, List.countP_singleton]
      by_cases asks : Asks host ip (event, answer')
      · rw [if_pos asks] at last ⊢
        omega
      · rw [if_neg asks] at last ⊢
        omega
    · rw [responses', responses, List.countP_append, List.countP_singleton, Nat.add_assoc]

theorem init_spec (host : Host) (slip : Bool) (slots : Vector (Slot IpAddr EthAddr) arpMaxEntries)
    (pending : Vector Pending arpMaxPending) (now : Nat) :
    ∃ arp, State.init host slip slots pending now = .ok arp ∧ arp.Sound ∧
      arp.neighbours = .initial host slip ∧ arp.sent = [] ∧ ∀ ip, arp.owed ip = 0 := by
  cases slip with
  | false =>
    obtain ⟨sound, same, owed⟩ :=
      @clear_spec ⟨⟨slots, 0⟩, pending, 0, []⟩ ⟨Nat.zero_le _, List.nodup_nil⟩
    exact ⟨_, rfl, sound, same, rfl, owed⟩
  | true =>
    obtain ⟨slots', written, content⟩ :=
      put_filled slots (show 0 < arpMaxEntries by decide) ⟨host.gateway, ethBroadcast, now⟩
    have one : CacheTable.Sound (id : IpAddr → IpAddr) ⟨slots', 1⟩ := by
      refine ⟨show 1 ≤ arpMaxEntries by decide, ?_⟩
      rw [show Table.contents ⟨slots', 1⟩ = _ from content]
      exact List.nodup_singleton _
    obtain ⟨sound, same, owed⟩ := @clear_spec ⟨⟨slots', 1⟩, pending, 0, []⟩ one
    refine ⟨_, by rw [State.init, if_pos rfl, written]; rfl, sound, same.trans ?_, rfl, owed⟩
    refine congrArg (fun known => Neighbours.mk known ∅) (funext fun ip => ?_)
    show known id (filled slots' 1) ip = _
    rw [content]
    exact congrFun (@known_concat _ _ _ _ id _ _ List.not_mem_nil) ip

/-! ### What is known was told -/

/-- A packet that gives an Ethernet address for an address. -/
def Tells (host : Host) (ip : IpAddr) (eth : EthAddr) (entry : Event × Option EthAddr) : Prop :=
  ∃ ah now later, entry.1 = .packet ah now later ∧
    ((ah.IsForMe host ∨ ah.operation = 2) ∧ ah.senderIp = ip ∧ ah.senderHa = eth ∨
      ah.operation = 2 ∧ ah.targetIp = ip ∧ ah.targetHa = eth)

/-- A packet of a machine that asks for this one, or that answers after it was asked for. -/
def Introduces (host : Host) (before : List (Event × Option EthAddr)) (ip : IpAddr)
    (entry : Event × Option EthAddr) : Prop :=
  ∃ ah now later, entry.1 = .packet ah now later ∧ ah.senderIp = ip ∧
    (ah.IsForMe host ∨ ah.IsReply host ∧ ∃ ask ∈ before, Asks host ip ask)

/-- An Ethernet address that some packet gave for an address, which some packet introduced. -/
def Vouched (host : Host) (trace : List (Event × Option EthAddr)) (ip : IpAddr) (eth : EthAddr) :
    Prop :=
  (∃ entry ∈ trace, Tells host ip eth entry) ∧
    ∃ before entry after, trace = before ++ entry :: after ∧ Introduces host before ip entry

/-- What is known is vouched for, but for the gateway of a serial line. -/
structure Neighbours.Honest (host : Host) (slip : Bool) (trace : List (Event × Option EthAddr))
    (neighbours : Neighbours) : Prop where
  known : ∀ ip eth, neighbours.known ip = some eth →
    Vouched host trace ip eth ∨ slip ∧ ip = host.gateway
  asked : ∀ ip ∈ neighbours.asked, ∃ ask ∈ trace, Asks host ip ask

section Honest

variable {slip : Bool} {trace : List (Event × Option EthAddr)} {neighbours next : Neighbours}
  {ip : IpAddr} {eth : EthAddr}

theorem Vouched.concat (vouched : Vouched host trace ip eth) (entry : Event × Option EthAddr) :
    Vouched host (trace ++ [entry]) ip eth := by
  obtain ⟨⟨told, member, tells⟩, before, first, after, rfl, introduces⟩ := vouched
  refine ⟨⟨told, List.mem_append_left _ member, tells⟩, before, first, after ++ [entry], ?_,
    introduces⟩
  rw [List.append_assoc, List.cons_append]

/-- What was vouched for stays so, whatever follows. -/
theorem Neighbours.Honest.concat (honest : neighbours.Honest host slip trace)
    (entry : Event × Option EthAddr) : neighbours.Honest host slip (trace ++ [entry]) where
  known ip eth isKnown := (honest.known ip eth isKnown).imp_left (·.concat entry)
  asked ip isAsked := by
    obtain ⟨ask, member, asks⟩ := honest.asked ip isAsked
    exact ⟨ask, List.mem_append_left _ member, asks⟩

theorem Neighbours.Honest.resolves (honest : neighbours.Honest host slip trace) {event : Event}
    {target : IpAddr} (wants : event.wants host = some target) {answer : Option EthAddr}
    (resolves : Resolves target neighbours answer next) :
    next.Honest host slip (trace ++ [(event, answer)]) := by
  have later := honest.concat (event, answer)
  cases resolves with
  | known _ => exact later
  | dropped _ => exact later
  | asked _ =>
    refine ⟨later.known, fun ip member => ?_⟩
    rcases Set.mem_insert_iff.mp member with rfl | old
    · exact ⟨_, List.mem_append_right _ List.mem_cons_self, (asks_iff wants).mpr ⟨rfl, rfl⟩⟩
    · exact later.asked ip old

/-- A machine that is introduced is vouched for with the address that it gives. -/
theorem vouched_introduced {ah : ArpHeader} {now later : Nat} {answer : Option EthAddr}
    (introduces : Introduces host trace ah.senderIp (.packet ah now later, answer))
    (operation : ah.IsForMe host ∨ ah.operation = 2) :
    Vouched host (trace ++ [(.packet ah now later, answer)]) ah.senderIp ah.senderHa :=
  ⟨⟨_, List.mem_append_right _ List.mem_cons_self, ah, now, later, rfl,
    .inl ⟨operation, rfl, rfl⟩⟩, trace, _, [], rfl, introduces⟩

theorem known_of_learned {known : IpAddr → Option EthAddr} {victim : Option IpAddr}
    {senderIp : IpAddr} {senderHa : EthAddr}
    (isKnown : Function.update (forget victim known) senderIp (some senderHa) ip = some eth) :
    ip = senderIp ∧ senderHa = eth ∨ known ip = some eth := by
  by_cases same : ip = senderIp
  · rw [same, Function.update_self] at isKnown
    exact .inl ⟨same, Option.some.inj isKnown⟩
  · rw [Function.update_of_ne same, forget] at isKnown
    split at isKnown
    · cases isKnown
    · exact .inr isKnown

theorem known_of_corrected {known : IpAddr → Option EthAddr} {target : IpAddr} {ha : EthAddr}
    (isKnown : corrected known target ha ip = some eth) :
    (ip = target ∧ ha = eth ∧ ∃ old, known ip = some old) ∨ known ip = some eth := by
  rw [corrected] at isKnown
  split at isKnown
  · rename_i there
    by_cases same : ip = target
    · rw [same, Function.update_self] at isKnown
      exact .inl ⟨same, Option.some.inj isKnown, same ▸ Option.isSome_iff_exists.mp there⟩
    · rw [Function.update_of_ne same] at isKnown
      exact .inr isKnown
  · exact .inr isKnown

/-- A packet that corrects what is known of a machine that was introduced before. -/
theorem Neighbours.Honest.corrects (honest : neighbours.Honest host slip trace)
    {old : EthAddr} (isKnown : neighbours.known ip = some old)
    {entry : Event × Option EthAddr} (tells : Tells host ip eth entry) :
    Vouched host (trace ++ [entry]) ip eth ∨ slip ∧ ip = host.gateway := by
  rcases honest.known ip old isKnown with vouched | serial
  · exact .inl ⟨⟨entry, List.mem_append_right _ List.mem_cons_self, tells⟩,
      (vouched.concat entry).2⟩
  · exact .inr serial

/-- The step lemma. -/
theorem Neighbours.Honest.step (honest : neighbours.Honest host slip trace) {event : Event}
    {answer : Option EthAddr} (steps : neighbours.Step host event answer next) :
    next.Honest host slip (trace ++ [(event, answer)]) := by
  have later := honest.concat (event, answer)
  cases steps with
  | broadcast _ => exact later
  | send one resolves => exact honest.resolves (wants_send one _) resolves
  | probe resolves => exact honest.resolves rfl resolves
  | @request ah now after forMe victim _ =>
    refine ⟨fun ip eth isKnown => ?_, later.asked⟩
    rcases known_of_learned isKnown with ⟨rfl, rfl⟩ | old
    · exact .inl (vouched_introduced ⟨ah, now, after, rfl, rfl, .inl forMe⟩ (.inl forMe))
    · exact later.known ip eth old
  | @reply ah now after isReply isAsked victim _ =>
    refine ⟨fun ip eth isKnown => ?_, fun ip member => later.asked ip member.1⟩
    rcases known_of_learned isKnown with ⟨rfl, rfl⟩ | old
    · exact .inl (vouched_introduced ⟨ah, now, after, rfl, rfl,
        .inr ⟨isReply, honest.asked _ isAsked⟩⟩ (.inr isReply.1))
    · exact later.known ip eth old
  | @unasked ah now after operation _ =>
    refine ⟨fun ip eth isKnown => ?_, later.asked⟩
    rcases known_of_corrected isKnown with ⟨rfl, rfl, old, wasKnown⟩ | target
    · obtain ⟨old, known⟩ : ∃ old, neighbours.known ah.senderIp = some old := by
        rcases known_of_corrected wasKnown with ⟨-, -, there⟩ | there
        · exact there
        · exact ⟨old, there⟩
      exact honest.corrects known ⟨ah, now, after, rfl, .inl ⟨.inr operation, rfl, rfl⟩⟩
    · rcases known_of_corrected target with ⟨rfl, rfl, old, known⟩ | old
      · exact honest.corrects known ⟨ah, now, after, rfl, .inr ⟨operation, rfl, rfl⟩⟩
      · exact later.known ip eth old
  | ignored _ _ => exact later
  | drive fewer => exact ⟨later.known, fun ip member => later.asked ip (fewer member)⟩
  | clear => exact ⟨later.known, fun ip none => none.elim⟩

/-- The run lemma. -/
theorem Neighbours.Runs.honest {start : Neighbours} (run : start.Runs host trace neighbours)
    (honest : start.Honest host slip []) : neighbours.Honest host slip trace := by
  induction run with
  | refl => exact honest
  | step _ steps inductionHypothesis => exact inductionHypothesis.step steps

/-- What a packet is given is what is known of its next hop. -/
theorem Neighbours.Step.known {event : Event} (steps : neighbours.Step host event (some eth) next)
    {hop : IpAddr} (wants : event.wants host = some hop) : neighbours.known hop = some eth := by
  cases steps with
  | broadcast all => cases (if_pos all).symm.trans wants
  | send one resolves =>
    obtain rfl := Option.some.inj ((wants_send one _).symm.trans wants)
    cases resolves with
    | known isKnown => exact isKnown
  | probe resolves =>
    obtain rfl := Option.some.inj wants
    cases resolves with
    | known isKnown => exact isKnown

theorem honest_initial (host : Host) (slip : Bool) :
    (Neighbours.initial host slip).Honest host slip [] := by
  refine ⟨fun ip eth isKnown => .inr ?_, fun ip none => none.elim⟩
  cases slip with
  | false => cases isKnown
  | true =>
    refine ⟨rfl, ?_⟩
    by_contra other
    have absent : Function.update (fun _ => none) host.gateway (some ethBroadcast) ip = none :=
      Function.update_of_ne other _ _
    cases absent.symm.trans isKnown

end Honest

/-! ### A greeting -/

/-- 10.0.0.1 on a network of 256 addresses. -/
def machine : Host := ⟨0x0100000a, 0x00ffffff, 0xfe00000a, 0x010000000002⟩

/-- 10.0.0.2 asks for the machine. -/
def greeting : ArpHeader := ⟨1, 7, 0x0200000a, 0, 0x0100000a⟩

/-- The machine before the greeting. -/
def blank : State :=
  ⟨⟨.replicate _ ⟨0, 0, 0⟩, 0⟩, .replicate _ ⟨0, 0, -1⟩, 0, []⟩

theorem init_machine :
    State.init machine false (.replicate _ ⟨0, 0, 0⟩) (.replicate _ ⟨0, 0, 0⟩) 0 = .ok blank := by
  show Except.ok (State.clearPendingTable _) = _
  rw [State.clearPendingTable, Vector.map_replicate]
  rfl

/-- The machine after the greeting, which asks for itself then. -/
def greeted : State :=
  ⟨⟨(Vector.replicate _ ⟨0, 0, 0⟩).set 0 ⟨0x0200000a, 7, 0⟩ (by decide), 1⟩,
    (Vector.replicate _ ⟨0, 0, -1⟩).set 0 ⟨0x0100000a, 0, 0⟩ (by decide), 1,
    [.response 7 0x0200000a, .request 0x0100000a]⟩

theorem runs_machine :
    Runs machine blank [(.packet greeting 0 0, none), (.probe 0, none)] greeted :=
  .step (.step (.refl blank) rfl) rfl

/-! ### The results -/

section Results

variable {slip : Bool} {slots : Vector (Slot IpAddr EthAddr) arpMaxEntries}
  {pending : Vector Pending arpMaxPending} {now : Nat} {start : State}
  {trace : List (Event × Option EthAddr)}

/-- What every run from the start keeps: the tables are sound, they stand for a state that the
specification reaches, and the packets that were sent are paid for by the events. -/
theorem Runs.of_init (starts : State.init host slip slots pending now = .ok start)
    (run : Runs host start trace arp) :
    arp.Sound ∧ (Neighbours.initial host slip).Runs host trace arp.neighbours ∧
      (∀ ip, arp.owed ip ≤ 4 * trace.countP (Asks host ip)) ∧
      ∀ ha ip, arp.sent.count (.response ha ip) = trace.countP (Greets host ha ip) := by
  obtain ⟨start', starts', sound, same, sent, owed⟩ := init_spec host slip slots pending now
  obtain rfl : start' = start := Except.ok.inj (starts'.symm.trans starts)
  obtain ⟨sound', refines, owed', responses⟩ := run.refines sound
  refine ⟨sound', same ▸ refines, fun ip => ?_, fun ha ip => ?_⟩
  · have bound := owed' ip
    rwa [owed ip, Nat.zero_add] at bound
  · rw [responses, sent, List.count_nil, Nat.zero_add]

/-- Whatever the memory held, and whatever happens in whatever order: no access is outside of a
table, and the class does what the specification allows. -/
theorem runs_refines (starts : State.init host slip slots pending now = .ok start)
    (run : Runs host start trace arp) :
    (∀ event, ∃ result, Arp.step host arp event = .ok result) ∧
      (Neighbours.initial host slip).Runs host trace arp.neighbours := by
  obtain ⟨sound, refines, -, -⟩ := run.of_init starts
  refine ⟨fun event => ?_, refines⟩
  obtain ⟨answer, next, steps, -⟩ := sound.step host event
  exact ⟨_, steps⟩

theorem runs_refines_greeting :
    (∀ event, ∃ result, Arp.step machine greeted event = .ok result) ∧
      (Neighbours.initial machine false).Runs machine
        [(.packet greeting 0 0, none), (.probe 0, none)] greeted.neighbours :=
  runs_refines init_machine runs_machine

/-- A packet to be sent is given an Ethernet address only if a packet that arrived gave it for the
next hop, and the next hop was introduced: it asked for this machine, or answered after it was asked
for. A reply that nobody asked for makes no machine known. -/
theorem runs_vouched (starts : State.init host slip slots pending now = .ok start)
    (run : Runs host start trace arp) {event : Event} {hop : IpAddr}
    (wants : event.wants host = some hop) {eth : EthAddr} {next : State}
    (answers : Arp.step host arp event = .ok (some eth, next)) :
    Vouched host trace hop eth ∨ slip ∧ hop = host.gateway := by
  obtain ⟨sound, refines, -, -⟩ := run.of_init starts
  have honest := refines.honest (honest_initial host slip)
  obtain ⟨answer, next', steps, -, refined, -⟩ := sound.step host event
  obtain ⟨rfl, rfl⟩ := Prod.mk.inj (Except.ok.inj (steps.symm.trans answers))
  exact honest.known hop eth (refined.known wants)

theorem runs_vouched_greeting :
    Arp.step machine greeted (.send 0x0200000a 0) = .ok (some 7, greeted) ∧
      (Vouched machine [(.packet greeting 0 0, none), (.probe 0, none)] 0x0200000a 7 ∨
        false ∧ (0x0200000a : IpAddr) = machine.gateway) :=
  ⟨rfl, runs_vouched init_machine runs_machine
    (show (Event.send 0x0200000a 0).wants machine = some 0x0200000a by decide) rfl⟩

end Results

end Nosgem.Arp
