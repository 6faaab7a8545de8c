/-
This file says what the tables of ARP.CPP are for. The machine knows the
Ethernet addresses of some neighbours and asks for those of others. A packet to
be sent is given what is known of its next hop, else the next hop is asked for.
A neighbour becomes known when it asks for this machine, or when it answers
while it is asked for; any other answer only corrects what is known.

The class of the source does this and nothing else, whatever arrives and in
whatever order: its tables are at every point a state of this specification,
which may forget a neighbour to make room for a new one, drop a question when
there is no room for it, and give a question up. No access is outside of a
table, and no slot is looked for in vain.
-/

import Nosgem.Arp
import Mathlib.Algebra.Ring.Nat
import Mathlib.Data.Set.Insert

namespace Nosgem.Arp

open Buffers CacheTable

/-! ### The specification -/

/-- What the machine knows and what it asks for. -/
structure Neighbours where
  known : IpAddr → Option EthAddr
  asked : Set IpAddr

/-- A value that replaces one that is known. -/
def corrected (known : IpAddr → Option EthAddr) (ip : IpAddr) (eth : EthAddr) :
    IpAddr → Option EthAddr :=
  if (known ip).isSome then Function.update known ip (some eth) else known

/-- The next hop of a destination on the network or behind the gateway. -/
def nextHop (host : Host) (ipDest : IpAddr) : IpAddr :=
  if host.myIpAddr &&& host.netmask = ipDest &&& host.netmask then ipDest else host.gateway

/-- A destination that all machines of the network are reached at. -/
def IsBroadcast (host : Host) (ipDest : IpAddr) : Prop :=
  ipDest = ipBroadcastNonRoutable ∨
    host.myIpAddr &&& host.netmask = ipDest &&& host.netmask ∧
      ipDest &&& ~~~host.netmask = ~~~host.netmask

/-- A question for the Ethernet address of a target, and its answer. -/
inductive Resolves (target : IpAddr) (before : Neighbours) :
    Option EthAddr → Neighbours → Prop where
  | known {eth : EthAddr} (isKnown : before.known target = some eth) :
      Resolves target before (some eth) before
  | asked (unknown : before.known target = none) :
      Resolves target before none ⟨before.known, insert target before.asked⟩
  | dropped (unknown : before.known target = none) : Resolves target before none before

/-- A request of another machine for the address of this one. -/
def ArpHeader.IsForMe (host : Host) (ah : ArpHeader) : Prop :=
  ah.operation = 1 ∧ ah.targetIp = host.myIpAddr ∧ ah.senderIp ≠ host.myIpAddr

/-- A reply that is not this machine's own one. -/
def ArpHeader.IsReply (host : Host) (ah : ArpHeader) : Prop :=
  ah.operation = 2 ∧ (ah.senderIp ≠ host.myIpAddr ∨ ah.senderHa ≠ host.myEthAddr)

instance (host : Host) (ah : ArpHeader) : Decidable (ah.IsForMe host) :=
  inferInstanceAs (Decidable (_ ∧ _))

/-- What an event may do. -/
inductive Neighbours.Step (host : Host) (before : Neighbours) :
    Event → Option EthAddr → Neighbours → Prop where
  | broadcast {ipDest : IpAddr} {ticks : ClockTicks} (all : IsBroadcast host ipDest) :
      Step host before (.send ipDest ticks) (some ethBroadcast) before
  | send {ipDest : IpAddr} {ticks : ClockTicks} {answer : Option EthAddr} {after : Neighbours}
      (one : ¬IsBroadcast host ipDest)
      (resolves : Resolves (nextHop host ipDest) before answer after) :
      Step host before (.send ipDest ticks) answer after
  | probe {ticks : ClockTicks} {answer : Option EthAddr} {after : Neighbours}
      (resolves : Resolves host.myIpAddr before answer after) :
      Step host before (.probe ticks) answer after
  | request {ah : ArpHeader} {now later : Nat} (forMe : ah.IsForMe host)
      (victim : Option IpAddr) (room : victim.isSome → before.known ah.senderIp = none) :
      Step host before (.packet ah now later) none
        ⟨Function.update (forget victim before.known) ah.senderIp (some ah.senderHa),
          before.asked⟩
  | reply {ah : ArpHeader} {now later : Nat} (isReply : ah.IsReply host)
      (isAsked : ah.senderIp ∈ before.asked) (victim : Option IpAddr)
      (room : victim.isSome → before.known ah.senderIp = none) :
      Step host before (.packet ah now later) none
        ⟨Function.update (forget victim before.known) ah.senderIp (some ah.senderHa),
          before.asked \ {ah.senderIp}⟩
  | unasked {ah : ArpHeader} {now later : Nat} (operation : ah.operation = 2)
      (notFor : ¬(ah.IsReply host ∧ ah.senderIp ∈ before.asked)) :
      Step host before (.packet ah now later) none
        ⟨corrected (corrected before.known ah.targetIp ah.targetHa) ah.senderIp ah.senderHa,
          before.asked⟩
  | ignored {ah : ArpHeader} {now later : Nat} (notReply : ah.operation ≠ 2)
      (notForMe : ¬ah.IsForMe host) :
      Step host before (.packet ah now later) none before
  | drive {ticks : Nat → ClockTicks} {asked : Set IpAddr} (fewer : asked ⊆ before.asked) :
      Step host before (.drive ticks) none ⟨before.known, asked⟩
  | clear : Step host before .clear none ⟨before.known, ∅⟩

/-! ### The slots of the requests -/

/-- The addresses of the slots in use. -/
def askedBy (slots : List Pending) : List IpAddr := (slots.filter Pending.active).map Pending.target

/-- The requests that may still be sent for an address without asking again. -/
def Pending.left (slot : Pending) (ip : IpAddr) : Nat :=
  if slot.active ∧ slot.target = ip then (arpRetries - slot.attempts).toNat else 0

/-- The requests for an address that were sent or may still be sent. -/
def State.owed (arp : State) (ip : IpAddr) : Nat :=
  arp.sent.count (.request ip) + (arp.pending.toList.map fun slot => slot.left ip).sum

/-- Tables as the source relies on them. -/
structure State.Sound (arp : State) : Prop where
  table : CacheTable.Sound id arp.arpTable
  distinct : (askedBy arp.pending.toList).Nodup
  count : arp.pendingEntries = (askedBy arp.pending.toList).length
  attempts : ∀ slot ∈ arp.pending.toList, -1 ≤ slot.attempts ∧ slot.attempts ≤ arpRetries

/-- The state of the specification that the tables stand for. -/
def State.neighbours (arp : State) : Neighbours :=
  ⟨arp.arpTable.lookup id, {ip | ip ∈ askedBy arp.pending.toList}⟩

section Slots

variable {slots before after : List Pending} {slot : Pending}

theorem mem_askedBy {ip : IpAddr} :
    ip ∈ askedBy slots ↔ ∃ slot ∈ slots, slot.active ∧ slot.target = ip := by
  simp only [askedBy, List.mem_map, List.mem_filter, and_assoc]

theorem askedBy_split : askedBy (before ++ slot :: after) =
    askedBy before ++ ((if slot.active then [slot.target] else []) ++ askedBy after) := by
  rw [askedBy, List.filter_append, List.map_append, List.filter_cons]
  cases slot.active <;> rfl

/-- The slot of an address stands for it alone. -/
theorem askedBy_perm (active : slot.active) :
    (askedBy (before ++ slot :: after)).Perm (slot.target :: askedBy (before ++ after)) := by
  rw [askedBy_split, if_pos active, askedBy, askedBy, askedBy, List.filter_append,
    List.map_append]
  exact List.perm_middle

theorem askedBy_idle (idle : ¬slot.active) :
    askedBy (before ++ slot :: after) = askedBy (before ++ after) := by
  rw [askedBy_split, if_neg idle, askedBy, askedBy, askedBy, List.filter_append, List.map_append,
    List.nil_append]

theorem length_askedBy_le : (askedBy slots).length ≤ slots.length := by
  rw [askedBy, List.length_map]
  exact List.length_filter_le _ _

end Slots

/-! ### The operations on the slots -/

section Operations

variable {arp : State}

theorem put_pending {index : Nat} {old : Pending} (place : arp.pending.toList[index]? = some old)
    (slot : Pending) :
    ∃ pending before after, put arp.pending index slot = .ok pending ∧
      arp.pending.toList = before ++ old :: after ∧ pending.toList = before ++ slot :: after := by
  obtain ⟨pending, before, after, written, parts, parts'⟩ :=
    put_within arp.pending le_rfl (by rwa [filled_size]) slot
  rw [filled_size] at parts parts'
  exact ⟨pending, before, after, written, parts, parts'⟩

theorem fetch_pending {index : Nat} {slot : Pending}
    (place : arp.pending.toList[index]? = some slot) : fetch arp.pending index = .ok slot :=
  fetch_eq arp.pending (show (filled arp.pending arpMaxPending)[index]? = _ by rwa [filled_size])

/-- The attempts of a slot that takes the place of another one. -/
theorem State.Sound.attempts_replace (sound : arp.Sound) {before after : List Pending}
    {old slot : Pending} (parts : arp.pending.toList = before ++ old :: after)
    (inRange : -1 ≤ slot.attempts ∧ slot.attempts ≤ arpRetries) :
    ∀ other ∈ before ++ slot :: after, -1 ≤ other.attempts ∧ other.attempts ≤ arpRetries := by
  intro other member
  have kept := sound.attempts other
  rw [parts] at kept
  rcases List.mem_append.mp member with first | behind
  · exact kept (List.mem_append_left _ first)
  · rcases List.mem_cons.mp behind with rfl | last
    · exact inRange
    · exact kept (List.mem_append_right _ (List.mem_cons_of_mem _ last))

/-- The slots in use are no more than there are. -/
theorem State.Sound.bound (sound : arp.Sound) : arp.pendingEntries ≤ arpMaxPending := by
  rw [sound.count]
  exact length_askedBy_le.trans_eq Vector.length_toList

/-- What is owed does not change with a slot that does not count. -/
theorem sum_left_split {before after : List Pending} {slot : Pending} (ip : IpAddr) :
    ((before ++ slot :: after).map fun slot => slot.left ip).sum =
      slot.left ip + ((before ++ after).map fun slot => slot.left ip).sum := by
  simp only [List.map_append, List.map_cons, List.sum_append, List.sum_cons]
  omega

theorem left_idle {slot : Pending} (idle : ¬slot.active) (ip : IpAddr) : slot.left ip = 0 :=
  if_neg fun counts => idle counts.1

theorem left_active {slot : Pending} (active : slot.active) (ip : IpAddr) :
    slot.left ip = if slot.target = ip then (arpRetries - slot.attempts).toNat else 0 := by
  simp only [Pending.left, active, true_and]

theorem count_request (sent : List Frame) (targetIp ip : IpAddr) :
    (sent ++ [Frame.request targetIp]).count (.request ip) =
      sent.count (.request ip) + if targetIp = ip then 1 else 0 := by
  rw [List.count_append, List.count_singleton]
  simp only [beq_iff_eq, Frame.request.injEq]

/-- While there is room, the search for a slot that is not in use finds one. -/
theorem State.Sound.emptySlot_idle (sound : arp.Sound) (room : arp.pendingEntries ≠ arpMaxPending) :
    ∃ slot, arp.pending.toList[arp.emptySlot]? = some slot ∧ ¬slot.active := by
  have within : arp.emptySlot < arp.pending.toList.length := by
    refine List.findIdx_lt_length.mpr ?_
    by_contra none
    have all : arp.pending.toList.filter Pending.active = arp.pending.toList := by
      refine List.filter_eq_self.mpr fun slot member => ?_
      by_contra idle
      exact none ⟨slot, member, by simpa using idle⟩
    refine room ?_
    rw [sound.count, askedBy, all, List.length_map, Vector.length_toList]
  refine ⟨_, List.getElem?_eq_getElem within, ?_⟩
  have found := @List.findIdx_getElem _ (fun slot : Pending => !slot.active) _ within
  rw [Bool.not_eq_true, ← Bool.not_eq_true']
  exact found

/-- A request is sent, and a slot taken for it, unless there is one or there is no room. -/
theorem State.Sound.sendArpRequest (sound : arp.Sound) (targetIp : IpAddr) (ticks : ClockTicks) :
    ∃ next, arp.sendArpRequest targetIp ticks = .ok next ∧ next.Sound ∧
      (next = arp ∨
        next.neighbours = ⟨arp.neighbours.known, insert targetIp arp.neighbours.asked⟩) ∧
      (∀ ip, next.owed ip ≤ arp.owed ip + if ip = targetIp then 4 else 0) ∧
      ∀ ha ip, next.sent.count (.response ha ip) = arp.sent.count (.response ha ip) := by
  by_cases there : arp.pending.toList.any fun slot => slot.active && slot.target = targetIp
  · exact ⟨arp, if_pos there, sound, .inl rfl, fun ip => Nat.le_add_right _ _, fun _ _ => rfl⟩
  by_cases full : arp.pendingEntries = arpMaxPending
  · refine ⟨arp, ?_, sound, .inl rfl, fun ip => Nat.le_add_right _ _, fun _ _ => rfl⟩
    rw [State.sendArpRequest, if_neg there, if_pos full]
    rfl
  obtain ⟨slot, place, idle⟩ := sound.emptySlot_idle full
  obtain ⟨pending, before, after, written, parts, parts'⟩ :=
    put_pending place ⟨targetIp, ticks, 0⟩
  have fresh : targetIp ∉ askedBy arp.pending.toList := by
    intro member
    obtain ⟨slot, inTable, active, same⟩ := mem_askedBy.mp member
    exact there (List.any_eq_true.mpr ⟨slot, inTable, by simp [active, same]⟩)
  have active : (⟨targetIp, ticks, 0⟩ : Pending).active := rfl
  have now : (askedBy pending.toList).Perm (targetIp :: askedBy arp.pending.toList) := by
    rw [parts, parts', askedBy_idle idle]
    exact askedBy_perm active
  have bound := sound.bound
  have entries : (arp.pendingEntries + 1) % 65536 = arp.pendingEntries + 1 :=
    Nat.mod_eq_of_lt (by unfold arpMaxPending at bound; omega)
  refine ⟨sendArpRequest2 { arp with pending, pendingEntries := (arp.pendingEntries + 1) % 65536 }
    targetIp, ?_, ⟨sound.table, ?_, ?_, ?_⟩, .inr ?_, fun ip => ?_, fun ha ip => ?_⟩
  · rw [State.sendArpRequest, if_neg there, if_neg full, written]
    rfl
  · exact now.nodup_iff.mpr (List.nodup_cons.mpr ⟨fresh, sound.distinct⟩)
  · show (arp.pendingEntries + 1) % 65536 = (askedBy pending.toList).length
    rw [entries, now.length_eq, List.length_cons, sound.count]
  · show ∀ slot ∈ pending.toList, _
    rw [parts']
    exact sound.attempts_replace parts
      ⟨show (-1 : Int) ≤ 0 by decide, show (0 : Int) ≤ 3 by decide⟩
  · refine congrArg (Neighbours.mk _) (Set.ext fun ip => ?_)
    show ip ∈ askedBy pending.toList ↔ _
    rw [now.mem_iff, List.mem_cons, Set.mem_insert_iff]
    rfl
  · show (arp.sent ++ [Frame.request targetIp]).count (.request ip) +
      (pending.toList.map fun slot => slot.left ip).sum ≤ _
    rw [State.owed, parts, parts', sum_left_split, sum_left_split, left_idle idle,
      left_active active, count_request, show (arpRetries - 0).toNat = 3 from rfl]
    by_cases same : targetIp = ip
    · rw [if_pos same, if_pos same, if_pos same.symm]
      omega
    · rw [if_neg same, if_neg same, if_neg (Ne.symm same)]
      omega
  · show (arp.sent ++ [Frame.request targetIp]).count _ = _
    rw [List.count_append]
    rfl

/-- A slot that is released is asked for no more. -/
theorem State.Sound.release (sound : arp.Sound) {index : Nat} {slot : Pending}
    (place : arp.pending.toList[index]? = some slot) (active : slot.active) :
    ∃ next, arp.release index = .ok next ∧ next.Sound ∧
      next.neighbours = ⟨arp.neighbours.known, arp.neighbours.asked \ {slot.target}⟩ ∧
      (∀ ip, next.owed ip ≤ arp.owed ip) ∧ next.sent = arp.sent := by
  obtain ⟨pending, before, after, written, parts, parts'⟩ :=
    put_pending place ⟨slot.target, slot.start, -1⟩
  have idle : ¬(⟨slot.target, slot.start, -1⟩ : Pending).active := Bool.false_ne_true
  have was : (askedBy arp.pending.toList).Perm (slot.target :: askedBy pending.toList) := by
    rw [parts, parts', askedBy_idle idle]
    exact askedBy_perm active
  have distinct := List.nodup_cons.mp (was.nodup_iff.mp sound.distinct)
  have bound := sound.bound
  have length := was.length_eq
  rw [← sound.count, List.length_cons] at length
  refine ⟨{ arp with pending, pendingEntries := (arp.pendingEntries + 65535) % 65536 }, ?_,
    ⟨sound.table, distinct.2, ?_, ?_⟩, ?_, fun ip => ?_, rfl⟩
  · rw [State.release, fetch_pending place, ok_bind, written]
    rfl
  · show (arp.pendingEntries + 65535) % 65536 = (askedBy pending.toList).length
    unfold arpMaxPending at bound
    rw [length, Nat.add_assoc, Nat.add_mod_right, Nat.mod_eq_of_lt (by omega)]
  · show ∀ slot ∈ pending.toList, _
    rw [parts']
    exact sound.attempts_replace parts ⟨le_rfl, show (-1 : Int) ≤ 3 by decide⟩
  · refine congrArg (Neighbours.mk _) (Set.ext fun ip => ?_)
    show ip ∈ askedBy pending.toList ↔ ip ∈ askedBy arp.pending.toList ∧ ¬ip = slot.target
    rw [was.mem_iff, List.mem_cons]
    constructor
    · intro member
      refine ⟨.inr member, ?_⟩
      rintro rfl
      exact distinct.1 member
    · rintro ⟨member, other⟩
      exact member.resolve_left other
  · show arp.sent.count (.request ip) + (pending.toList.map fun slot => slot.left ip).sum ≤ _
    rw [State.owed, parts, parts', sum_left_split, sum_left_split, left_idle idle]
    omega

/-- What driving the requests does: some are given up, and none is sent more often than owed. -/
structure State.Driven (arp next : State) : Prop where
  sound : next.Sound
  known : next.neighbours.known = arp.neighbours.known
  asked : next.neighbours.asked ⊆ arp.neighbours.asked
  owed : ∀ ip, next.owed ip ≤ arp.owed ip
  responses : ∀ ha ip, next.sent.count (.response ha ip) = arp.sent.count (.response ha ip)

theorem State.Sound.undriven (sound : arp.Sound) : arp.Driven arp :=
  ⟨sound, rfl, subset_rfl, fun _ => le_rfl, fun _ _ => rfl⟩

theorem State.Driven.trans {middle next : State} (first : arp.Driven middle)
    (second : middle.Driven next) : arp.Driven next :=
  ⟨second.sound, second.known.trans first.known, second.asked.trans first.asked,
    fun ip => (second.owed ip).trans (first.owed ip),
    fun ha ip => (second.responses ha ip).trans (first.responses ha ip)⟩

/-- A request is sent once more, and the attempts are counted. -/
theorem State.Sound.retry (sound : arp.Sound) {index : Nat} {slot : Pending}
    (place : arp.pending.toList[index]? = some slot) (active : slot.active)
    (more : slot.attempts ≠ arpRetries) (current : ClockTicks) :
    ∃ pending, put arp.pending index ⟨slot.target, current, slot.attempts + 1⟩ = .ok pending ∧
      arp.Driven (sendArpRequest2 { arp with pending } slot.target) := by
  obtain ⟨pending, before, after, written, parts, parts'⟩ :=
    put_pending place ⟨slot.target, current, slot.attempts + 1⟩
  obtain ⟨least, most⟩ := sound.attempts slot (List.mem_of_getElem? place)
  have some : slot.attempts ≠ -1 := of_decide_eq_true active
  have active' : (⟨slot.target, current, slot.attempts + 1⟩ : Pending).active :=
    decide_eq_true (show slot.attempts + 1 ≠ -1 by omega)
  have same : askedBy pending.toList = askedBy arp.pending.toList := by
    rw [parts, parts', askedBy_split, askedBy_split, if_pos active, if_pos active']
  refine ⟨pending, written, ⟨sound.table, ?_, ?_, ?_⟩, rfl, fun ip member => ?_, fun ip => ?_,
    fun ha ip => ?_⟩
  · show (askedBy pending.toList).Nodup
    rw [same]
    exact sound.distinct
  · show arp.pendingEntries = (askedBy pending.toList).length
    rw [same]
    exact sound.count
  · show ∀ slot ∈ pending.toList, _
    rw [parts']
    exact sound.attempts_replace parts
      ⟨show -1 ≤ slot.attempts + 1 by omega, show slot.attempts + 1 ≤ arpRetries by omega⟩
  · have member : ip ∈ askedBy pending.toList := member
    rwa [same] at member
  · show (arp.sent ++ [Frame.request slot.target]).count (.request ip) +
      (pending.toList.map fun slot => slot.left ip).sum ≤ _
    rw [State.owed, parts, parts', sum_left_split, sum_left_split, left_active active,
      left_active active', count_request]
    show _ + (if slot.target = ip then 1 else 0) + ((if slot.target = ip then
      (arpRetries - (slot.attempts + 1)).toNat else 0) + _) ≤ _
    by_cases isIt : slot.target = ip
    · rw [if_pos isIt, if_pos isIt, if_pos isIt]
      omega
    · rw [if_neg isIt, if_neg isIt, if_neg isIt]
      omega
  · show (arp.sent ++ [Frame.request slot.target]).count _ = _
    rw [List.count_append]
    rfl

theorem State.Sound.driveSlot (sound : arp.Sound) {index : Nat} (bound : index < arpMaxPending)
    (current : ClockTicks) :
    ∃ next, arp.driveSlot index current = .ok next ∧ arp.Driven next := by
  have inside : index < arp.pending.toList.length := by rwa [Vector.length_toList]
  obtain ⟨slot, place⟩ : ∃ slot, arp.pending.toList[index]? = some slot :=
    ⟨_, List.getElem?_eq_getElem inside⟩
  rw [State.driveSlot, fetch_pending place, ok_bind]
  by_cases active : slot.active
  swap
  · rw [if_pos (by simpa using active)]
    exact ⟨arp, rfl, sound.undriven⟩
  rw [if_neg (by simpa using active)]
  by_cases last : slot.attempts = arpRetries
  · rw [if_pos last]
    obtain ⟨next, releases, sound', same, owed, sent⟩ := sound.release place active
    refine ⟨next, releases, sound', by rw [same], ?_, owed,
      fun _ _ => by rw [sent]⟩
    rw [same]
    exact fun ip member => member.1
  rw [if_neg last]
  by_cases late : timerDiff slot.start current > arpTimeout
  · obtain ⟨pending, written, driven⟩ := sound.retry place active last current
    rw [if_pos late, written]
    exact ⟨_, rfl, driven⟩
  · rw [if_neg late]
    exact ⟨arp, rfl, sound.undriven⟩

theorem State.Sound.driveFrom (sound : arp.Sound) (ticks : Nat → ClockTicks)
    {remaining index : Nat} (bound : index + remaining ≤ arpMaxPending) :
    ∃ next, State.driveFrom ticks arp remaining index = .ok next ∧ arp.Driven next := by
  induction remaining generalizing arp index with
  | zero => exact ⟨arp, rfl, sound.undriven⟩
  | succ remaining inductionHypothesis =>
    obtain ⟨middle, drives, first⟩ :=
      sound.driveSlot (show index < arpMaxPending by omega) (ticks index)
    obtain ⟨next, rest, second⟩ :=
      inductionHypothesis first.sound (show index + 1 + remaining ≤ arpMaxPending by omega)
    refine ⟨next, ?_, first.trans second⟩
    rw [State.driveFrom, drives]
    exact rest

theorem State.Sound.driveArp (sound : arp.Sound) (ticks : Nat → ClockTicks) :
    ∃ next, arp.driveArp ticks = .ok next ∧ arp.Driven next := by
  by_cases none : arp.pendingEntries = 0
  · exact ⟨arp, if_pos none, sound.undriven⟩
  · rw [State.driveArp, if_neg none]
    exact sound.driveFrom ticks (Nat.zero_add _).le

/-! ### The operations on the table -/

/-- A new value for one that is there. -/
theorem State.Sound.correct (sound : arp.Sound) (ip : IpAddr) (eth : EthAddr) (now : Nat) :
    ∃ next, arp.correct ip eth now = .ok next ∧ next.Sound ∧
      next.neighbours = ⟨corrected arp.neighbours.known ip eth, arp.neighbours.asked⟩ ∧
      next.pending = arp.pending ∧ next.sent = arp.sent := by
  rw [State.correct, State.findEth]
  rcases find_cases sound.table ip with ⟨finds, new⟩ | ⟨index, old, finds, place, isKey, there⟩
  · have same : corrected arp.neighbours.known ip eth = arp.neighbours.known :=
      if_neg (by rw [show arp.neighbours.known ip = none from new]; exact Bool.false_ne_true)
    rw [finds, ok_bind, same]
    exact ⟨arp, rfl, sound, rfl, rfl, rfl⟩
  · obtain ⟨arpTable, updates, table, learns⟩ := updateEntry_spec sound.table place isKey eth now
    have same : corrected arp.neighbours.known ip eth = arpTable.lookup id :=
      (if_pos (by rw [show arp.neighbours.known ip = some old.value from there]; rfl)).trans
        learns.symm
    rw [finds, ok_bind]
    dsimp only
    rw [State.updateEntry, updates, same]
    exact ⟨{ arp with arpTable }, rfl, ⟨table, sound.distinct, sound.count, sound.attempts⟩, rfl,
      rfl, rfl⟩

/-- A new value, for which a neighbour may be forgotten. -/
theorem State.Sound.updateOrAddCache (sound : arp.Sound) (eth : EthAddr) (ip : IpAddr)
    (now : Nat) :
    ∃ next victim, arp.updateOrAddCache eth ip now = .ok next ∧ next.Sound ∧
      next.neighbours = ⟨Function.update (forget victim arp.neighbours.known) ip (some eth),
        arp.neighbours.asked⟩ ∧
      (victim.isSome → arp.neighbours.known ip = none) ∧
      next.pending = arp.pending ∧ next.sent = arp.sent := by
  obtain ⟨arpTable, victim, updates, table, learns, evicts⟩ :=
    updateOrAdd_spec sound.table (show 0 < arpMaxEntries by decide) ip eth now
  refine ⟨{ arp with arpTable }, victim, ?_,
    ⟨table, sound.distinct, sound.count, sound.attempts⟩,
    congrArg (fun known => Neighbours.mk known _) learns, fun some => ?_, rfl, rfl⟩
  · rw [State.updateOrAddCache, updates]
    rfl
  · obtain ⟨lost, isLost⟩ := Option.isSome_iff_exists.mp some
    exact (evicts lost isLost).new

/-- What is known is the answer; what is not known is asked for. -/
theorem State.Sound.resolve (sound : arp.Sound) (targetIp : IpAddr) (ticks : ClockTicks) :
    ∃ answer next, arp.resolve targetIp ticks = .ok (answer, next) ∧ next.Sound ∧
      Resolves targetIp arp.neighbours answer next.neighbours ∧
      (∀ ip, next.owed ip ≤ arp.owed ip + if ip = targetIp ∧ answer = none then 4 else 0) ∧
      ∀ ha ip, next.sent.count (.response ha ip) = arp.sent.count (.response ha ip) := by
  rw [State.resolve, State.findEth]
  rcases find_cases sound.table targetIp with ⟨finds, new⟩ | ⟨index, old, finds, place, -, there⟩
  · obtain ⟨next, sends, sound', asks, owed, sent⟩ := sound.sendArpRequest targetIp ticks
    rw [finds, ok_bind]
    dsimp only
    rw [sends]
    refine ⟨none, next, rfl, sound', ?_, fun ip => ?_, sent⟩
    · rcases asks with rfl | asks
      · exact .dropped new
      · rw [asks]
        exact .asked new
    · simpa only [and_true] using owed ip
  · rw [finds, ok_bind]
    dsimp only
    rw [fetch_eq arp.arpTable.slots place]
    exact ⟨some old.value, arp, rfl, sound, .known there, fun ip => Nat.le_add_right _ _,
      fun _ _ => rfl⟩

/-! ### Events -/

theorem answeredBy_iff {host : Host} {ah : ArpHeader} (operation : ah.operation = 2)
    {slot : Pending} :
    answeredBy host ah slot ↔ slot.active ∧ slot.target = ah.senderIp ∧ ah.IsReply host := by
  simp only [answeredBy, ArpHeader.IsReply, operation, Bool.and_eq_true, Bool.or_eq_true,
    decide_eq_true_eq, true_and, and_assoc]
  exact and_congr_right fun _ => and_congr_left fun _ => eq_comm

/-- The sender of a request is learned, and the request is answered. -/
theorem State.Sound.request (sound : arp.Sound) (ah : ArpHeader) (now : Nat) :
    ∃ learned victim, arp.updateOrAddCache ah.senderHa ah.senderIp now = .ok learned ∧
      (learned.sendArpResponse ah).Sound ∧
      (victim.isSome → arp.neighbours.known ah.senderIp = none) ∧
      (learned.sendArpResponse ah).neighbours =
        ⟨Function.update (forget victim arp.neighbours.known) ah.senderIp (some ah.senderHa),
          arp.neighbours.asked⟩ ∧
      (∀ ip, (learned.sendArpResponse ah).owed ip ≤ arp.owed ip) ∧
      ∀ ha ip, (learned.sendArpResponse ah).sent.count (.response ha ip) =
        arp.sent.count (.response ha ip) +
          if ah.senderHa = ha ∧ ah.senderIp = ip then 1 else 0 := by
  obtain ⟨learned, victim, updates, sound', learns, room, pending, sent⟩ :=
    sound.updateOrAddCache ah.senderHa ah.senderIp now
  refine ⟨learned, victim, updates, ⟨sound'.table, sound'.distinct, sound'.count, sound'.attempts⟩,
    room, learns, fun ip => ?_, fun ha ip => ?_⟩
  · show (learned.sent ++ [Frame.response ah.senderHa ah.senderIp]).count (.request ip) +
      (learned.pending.toList.map fun slot => slot.left ip).sum ≤ arp.owed ip
    rw [List.count_append, List.count_singleton, pending, sent]
    exact le_rfl
  · show (learned.sent ++ [Frame.response ah.senderHa ah.senderIp]).count _ = _
    rw [List.count_append, List.count_singleton, sent]
    simp only [beq_iff_eq, Frame.response.injEq]

/-- A reply that is asked for is learned, and the question is closed. -/
theorem State.Sound.reply (sound : arp.Sound) {host : Host} {ah : ArpHeader}
    (operation : ah.operation = 2) (now : Nat) {index : Nat}
    (search : arp.pending.toList.findIdx? (answeredBy host ah) = some index) :
    ∃ learned next victim, arp.updateOrAddCache ah.senderHa ah.senderIp now = .ok learned ∧
      learned.release index = .ok next ∧ next.Sound ∧ ah.IsReply host ∧
      ah.senderIp ∈ arp.neighbours.asked ∧
      (victim.isSome → arp.neighbours.known ah.senderIp = none) ∧
      next.neighbours =
        ⟨Function.update (forget victim arp.neighbours.known) ah.senderIp (some ah.senderHa),
          arp.neighbours.asked \ {ah.senderIp}⟩ ∧
      (∀ ip, next.owed ip ≤ arp.owed ip) ∧ next.sent = arp.sent := by
  obtain ⟨within, answered, -⟩ := List.findIdx?_eq_some_iff_getElem.mp search
  obtain ⟨slot, place⟩ : ∃ slot, arp.pending.toList[index]? = some slot :=
    ⟨_, List.getElem?_eq_getElem within⟩
  have isSlot : arp.pending.toList[index] = slot :=
    Option.some.inj ((List.getElem?_eq_getElem within).symm.trans place)
  rw [isSlot] at answered
  obtain ⟨active, target, isReply⟩ := (answeredBy_iff operation).mp answered
  obtain ⟨learned, victim, updates, sound', learns, room, pending, sent⟩ :=
    sound.updateOrAddCache ah.senderHa ah.senderIp now
  obtain ⟨next, releases, sound'', closes, owed, sent'⟩ :=
    sound'.release (by rwa [pending]) active
  refine ⟨learned, next, victim, updates, releases, sound'', isReply,
    mem_askedBy.mpr ⟨slot, List.mem_of_getElem? place, active, target⟩, room, ?_, fun ip => ?_,
    sent'.trans sent⟩
  · rw [closes, learns, target]
  · refine (owed ip).trans_eq ?_
    rw [State.owed, State.owed, pending, sent]

theorem State.Sound.processArp (sound : arp.Sound) (host : Host) (ah : ArpHeader)
    (now later : Nat) :
    ∃ next, arp.processArp host ah now later = .ok next ∧ next.Sound ∧
      Neighbours.Step host arp.neighbours (.packet ah now later) none next.neighbours ∧
      (∀ ip, next.owed ip ≤ arp.owed ip) ∧
      ∀ ha ip, next.sent.count (.response ha ip) = arp.sent.count (.response ha ip) +
        if ah.IsForMe host ∧ ah.senderHa = ha ∧ ah.senderIp = ip then 1 else 0 := by
  by_cases request : ah.operation = 1
  · rw [State.processArp, if_pos request]
    have notReply : ah.operation ≠ 2 := by omega
    by_cases forMe : ah.targetIp = host.myIpAddr ∧ ah.senderIp ≠ host.myIpAddr
    · obtain ⟨learned, victim, updates, sound', room, same, owed, sent⟩ :=
        sound.request ah now
      rw [if_pos forMe, updates, ok_bind]
      refine ⟨learned.sendArpResponse ah, rfl, sound', ?_, owed, fun ha ip => ?_⟩
      · rw [same]
        exact .request ⟨request, forMe⟩ victim room
      · rw [sent]
        simp only [ArpHeader.IsForMe, request, forMe, not_false_eq_true, ne_eq, and_self,
          true_and]
    · have notForMe : ¬ah.IsForMe host := fun isFor => forMe isFor.2
      rw [if_neg forMe]
      refine ⟨arp, rfl, sound, .ignored notReply notForMe, fun _ => le_rfl, fun ha ip => ?_⟩
      rw [if_neg fun both => notForMe both.1]
      rfl
  by_cases reply : ah.operation = 2
  · have notForMe (ha : EthAddr) (ip : IpAddr) :
        ¬(ah.IsForMe host ∧ ah.senderHa = ha ∧ ah.senderIp = ip) := fun both => request both.1.1
    rw [State.processArp, if_neg request, if_pos reply]
    cases search : arp.pending.toList.findIdx? (answeredBy host ah) with
    | some index =>
      obtain ⟨learned, next, victim, updates, releases, sound', isReply, isAsked, room, same,
        owed, sent⟩ := sound.reply reply now search
      dsimp only
      rw [updates, ok_bind]
      refine ⟨next, releases, sound', ?_, owed, fun ha ip => ?_⟩
      · rw [same]
        exact .reply isReply isAsked victim room
      · rw [if_neg (notForMe ha ip), sent]
        rfl
    | none =>
      obtain ⟨middle, corrects, sound', same, pending, sent⟩ :=
        sound.correct ah.targetIp ah.targetHa now
      obtain ⟨next, corrects', sound'', same', pending', sent'⟩ :=
        sound'.correct ah.senderIp ah.senderHa later
      dsimp only
      rw [corrects, ok_bind]
      refine ⟨next, corrects', sound'', ?_, fun ip => ?_, fun ha ip => ?_⟩
      · rw [same', same]
        refine .unasked reply fun both => ?_
        obtain ⟨slot, inTable, active, target⟩ := mem_askedBy.mp both.2
        have other := List.findIdx?_eq_none_iff.mp search slot inTable
        rw [(answeredBy_iff reply).mpr ⟨active, target, both.1⟩] at other
        cases other
      · rw [State.owed, State.owed, pending', pending, sent', sent]
      · rw [if_neg (notForMe ha ip), sent', sent]
        rfl
  · have notForMe : ¬ah.IsForMe host := fun isFor => request isFor.1
    rw [State.processArp, if_neg request, if_neg reply]
    refine ⟨arp, rfl, sound, .ignored reply notForMe, fun _ => le_rfl, fun ha ip => ?_⟩
    rw [if_neg fun both => notForMe both.1]
    rfl

end Operations

end Nosgem.Arp
