import Kyberion.Mesh.PeerServer

/-!
What the server promises of its deliveries. A message in flight is alone under
its key and has not been handled; the counters of the server are the numbers of
the calls that hold a slot and that wait, and nobody waits while a slot is free.
-/

namespace Kyberion.Mesh.PeerServer

open Js Transition

/-- The call holds a slot. -/
def Phase.isRunning : Phase → Bool
  | .admitted _ | .responding _ => true
  | _ => false

def Phase.isWaiting : Phase → Bool
  | .waiting _ => true
  | _ => false

/-- The message that a call is under way with. -/
def Phase.inFlight : Phase → Option PeerMessageEnvelope
  | .admitted envelope | .refused envelope | .waiting envelope | .responding envelope =>
      some envelope
  | .done _ => none

def World.delivery (w : World) (c : ℕ) : Option PeerMessageEnvelope :=
  w.calls[c]?.bind Phase.inFlight

variable {options : PeerMessagingServerOptions}

section Handled

variable (options) in
/-- The log says that the message of this key was handled. -/
def Handled (events : List PeerEvent) (key : String) : Prop :=
  ∃ at_, (key, at_) ∈ (listPeerEvents options events).filterMap PeerEvent.handled

theorem foldl_update_isSome (entries : List (String × ℤ)) (map : String → Option ℤ)
    (key : String) :
    (entries.foldl (fun (map : String → Option ℤ) entry =>
      Function.update map entry.1 (some entry.2)) map key).isSome ↔
      (map key).isSome ∨ ∃ at_, (key, at_) ∈ entries := by
  induction entries generalizing map with
  | nil => simp
  | cons entry entries ih =>
      obtain ⟨k, v⟩ := entry
      rw [List.foldl_cons, ih]
      by_cases hk : key = k
      · subst hk
        simp
      · simp [hk]

theorem getHandledMessageIds_isSome {events : List PeerEvent} {server : ServerState} {key : String}
    (h : ∀ map, server.handledMessageIds = some map →
      ((map key).isSome ↔ Handled options events key)) :
    (getHandledMessageIds options events server key).isSome ↔ Handled options events key := by
  cases hmap : server.handledMessageIds with
  | some map =>
      rw [getHandledMessageIds, hmap]
      exact h map hmap
  | none =>
      rw [getHandledMessageIds, hmap, Option.getD_none, mapOf, foldl_update_isSome]
      simp [Handled]

theorem handled_record {events : List PeerEvent} {event : PeerEvent}
    (hevent : event.handled = none) (key : String) :
    Handled options (events ++ [event]) key ↔ Handled options events key := by
  simp only [Handled, listPeerEvents, List.filter_append, List.filterMap_append, List.mem_append]
  by_cases hpeer : event.peerId = trim options.peerId <;> simp [hpeer, hevent]

theorem handled_append (events : List PeerEvent) {event : PeerEvent} {key : String} {at_ : ℤ}
    (hevent : event.handled = some (key, at_)) (hpeer : event.peerId = trim options.peerId)
    (k : String) :
    Handled options (events ++ [event]) k ↔ Handled options events k ∨ k = key := by
  simp only [Handled, listPeerEvents, List.filter_append, List.filterMap_append, List.mem_append,
    exists_or]
  simp [hpeer, hevent]

end Handled

section Deliveries

variable {w : World} {c : ℕ} {phase old : Phase}

theorem delivery_begin (w : World) (phase : Phase) :
    (w.begin_ phase).delivery = Function.update w.delivery w.calls.length phase.inFlight := by
  funext d
  by_cases hd : d = w.calls.length
  · subst hd
    simp [World.delivery, World.begin_]
  · rw [Function.update_of_ne hd]
    by_cases hlt : d < w.calls.length
    · simp [World.delivery, World.begin_, List.getElem?_append_left hlt]
    · have hle : (w.calls ++ [phase]).length ≤ d := by
        simp only [List.length_append, List.length_singleton]
        omega
      simp only [World.delivery, World.begin_]
      rw [List.getElem?_eq_none hle, List.getElem?_eq_none (by omega)]

theorem delivery_length (w : World) : w.delivery w.calls.length = none := by
  simp [World.delivery]

theorem delivery_put (hcall : w.calls[c]? = some old) :
    (w.put c phase).delivery = Function.update w.delivery c phase.inFlight := by
  have hc := (List.getElem?_eq_some_iff.mp hcall).1
  funext d
  by_cases hd : d = c
  · subst hd
    simp [World.delivery, World.put, hc]
  · rw [Function.update_of_ne hd]
    simp only [World.delivery, World.put]
    rw [List.getElem?_set_ne (Ne.symm hd)]

theorem delivery_of (hcall : w.calls[c]? = some phase) : w.delivery c = phase.inFlight := by
  rw [World.delivery, hcall, Option.bind_some]

theorem delivery_wake (w : World) (c : ℕ) : (w.wake c).delivery = w.delivery := by
  unfold World.wake
  split
  · rename_i envelope hcall
    rw [delivery_put hcall, Function.update_eq_self_iff]
    exact (delivery_of hcall).symm
  · rfl

/-- What waking a call leaves alone. -/
theorem wake_keeps (w : World) (c : ℕ) :
    (w.wake c).events = w.events ∧ (w.wake c).server = w.server ∧
      (w.wake c).returned = w.returned := by
  unfold World.wake
  split <;> exact ⟨rfl, rfl, rfl⟩

/-- Giving a slot back changes no message in flight. -/
theorem releaseAdmission_keeps (w : World) :
    w.releaseAdmission.events = w.events ∧
      w.releaseAdmission.server.handledMessageIds = w.server.handledMessageIds ∧
      w.releaseAdmission.server.activeMessageIds = w.server.activeMessageIds ∧
      w.releaseAdmission.returned = w.returned ∧
      w.releaseAdmission.delivery = w.delivery := by
  unfold World.releaseAdmission
  split
  · obtain ⟨hevents, hserver, hreturned⟩ := wake_keeps _ _
    rw [hevents, hserver, hreturned, delivery_wake]
    exact ⟨rfl, rfl, rfl, rfl, rfl⟩
  · exact ⟨rfl, rfl, rfl, rfl, rfl⟩

end Deliveries

section Keys

variable (options) in
/-- The messages in flight, of the components that matter to them. -/
structure KeysInv (events : List PeerEvent) (memory : Option (String → Option ℤ))
    (ids : Finset String) (returned : List (String × String))
    (delivery : ℕ → Option PeerMessageEnvelope) : Prop where
  memory : ∀ map, memory = some map → ∀ key, (map key).isSome ↔ Handled options events key
  named : ∀ c envelope, delivery c = some envelope → trim options.peerId = options.peerId
  held : ∀ c envelope, delivery c = some envelope → envelope.deliveryKey ∈ ids
  alone : ∀ c d envelope other, delivery c = some envelope → delivery d = some other →
    envelope.deliveryKey = other.deliveryKey → c = d
  fresh : ∀ c envelope, delivery c = some envelope →
    ¬ Handled options events envelope.deliveryKey
  kept : ∀ message ∈ returned, Handled options events (message.1 ++ ":" ++ message.2)
  once : returned.Nodup

variable {events : List PeerEvent} {memory : Option (String → Option ℤ)} {ids : Finset String}
  {returned : List (String × String)} {delivery : ℕ → Option PeerMessageEnvelope} {c : ℕ}
  {envelope : PeerMessageEnvelope}

theorem KeysInv.load (h : KeysInv options events memory ids returned delivery)
    {map : String → Option ℤ} (hmap : ∀ key, (map key).isSome ↔ Handled options events key) :
    KeysInv options events (some map) ids returned delivery := by
  refine { h with memory := fun map' hmap' => ?_ }
  obtain rfl := Option.some.inj hmap'
  exact hmap

theorem KeysInv.record (h : KeysInv options events memory ids returned delivery)
    {event : PeerEvent} (hevent : event.handled = none) :
    KeysInv options (events ++ [event]) memory ids returned delivery where
  memory map hmap key := (h.memory map hmap key).trans (handled_record hevent key).symm
  named := h.named
  held := h.held
  alone := h.alone
  fresh d other hd := fun hhandled => h.fresh d other hd ((handled_record hevent _).mp hhandled)
  kept message hmem := (handled_record hevent _).mpr (h.kept message hmem)
  once := h.once

/-- A message that is neither in flight nor handled goes in flight. -/
theorem KeysInv.enter (h : KeysInv options events memory ids returned delivery)
    (hpeer : trim options.peerId = options.peerId) (hids : envelope.deliveryKey ∉ ids)
    (hnew : ¬ Handled options events envelope.deliveryKey) :
    KeysInv options events memory (insert envelope.deliveryKey ids) returned
      (Function.update delivery c (some envelope)) where
  memory := h.memory
  named _ _ _ := hpeer
  held d other hd := by
    by_cases hdc : d = c
    · subst hdc
      rw [Function.update_self] at hd
      obtain rfl := Option.some.inj hd
      exact Finset.mem_insert_self _ _
    · rw [Function.update_of_ne hdc] at hd
      exact Finset.mem_insert_of_mem (h.held d other hd)
  alone := by
    intro d d' other other' hd hd' hkey
    by_cases hdc : d = c <;> by_cases hdc' : d' = c
    · rw [hdc, hdc']
    · subst hdc
      rw [Function.update_self] at hd
      rw [Function.update_of_ne hdc'] at hd'
      obtain rfl := Option.some.inj hd
      exact absurd (hkey ▸ h.held d' other' hd') hids
    · subst hdc'
      rw [Function.update_self] at hd'
      rw [Function.update_of_ne hdc] at hd
      obtain rfl := Option.some.inj hd'
      exact absurd (hkey ▸ h.held d other hd) hids
    · rw [Function.update_of_ne hdc] at hd
      rw [Function.update_of_ne hdc'] at hd'
      exact h.alone d d' other other' hd hd' hkey
  fresh d other hd := by
    by_cases hdc : d = c
    · subst hdc
      rw [Function.update_self] at hd
      obtain rfl := Option.some.inj hd
      exact hnew
    · rw [Function.update_of_ne hdc] at hd
      exact h.fresh d other hd
  kept := h.kept
  once := h.once

/-- What is in flight without the call `c`. -/
theorem update_none {d : ℕ} {other : PeerMessageEnvelope}
    (hd : Function.update delivery c none d = some other) : d ≠ c ∧ delivery d = some other := by
  by_cases hdc : d = c
  · subst hdc
    rw [Function.update_self] at hd
    cases hd
  · rw [Function.update_of_ne hdc] at hd
    exact ⟨hdc, hd⟩

theorem KeysInv.drop (h : KeysInv options events memory ids returned delivery)
    (hc : delivery c = some envelope) :
    KeysInv options events memory (ids.erase envelope.deliveryKey) returned
      (Function.update delivery c none) where
  memory := h.memory
  named d other hd := h.named d other (update_none hd).2
  held d other hd := by
    obtain ⟨hdc, hd⟩ := update_none hd
    refine Finset.mem_erase.mpr ⟨fun hkey => hdc ?_, h.held d other hd⟩
    exact h.alone d c other envelope hd hc hkey
  alone d d' other other' hd hd' :=
    h.alone d d' other other' (update_none hd).2 (update_none hd').2
  fresh d other hd := h.fresh d other (update_none hd).2
  kept := h.kept
  once := h.once

/-- A message has been handled and leaves. -/
theorem KeysInv.settle (h : KeysInv options events memory ids returned delivery)
    (hc : delivery c = some envelope) {event : PeerEvent} {at_ : ℤ}
    (hevent : event.handled = some (envelope.deliveryKey, at_))
    (hpeer : event.peerId = options.peerId) {map : String → Option ℤ}
    (hmap : ∀ key, (map key).isSome ↔ Handled options (events ++ [event]) key)
    {later : List (String × String)}
    (hlater : later = returned ∨
      later = returned ++ [(envelope.senderPeerId, envelope.messageId)]) :
    KeysInv options (events ++ [event]) (some map) (ids.erase envelope.deliveryKey) later
      (Function.update delivery c none) := by
  have happend := handled_append events hevent
    (hpeer.trans (h.named c envelope hc).symm)
  have hleft := h.drop hc
  have hkept (message : String × String) (hmem : message ∈ returned) :
      Handled options (events ++ [event]) (message.1 ++ ":" ++ message.2) :=
    (happend _).mpr (.inl (h.kept message hmem))
  refine ⟨fun map' hmap' => Option.some.inj hmap' ▸ hmap, hleft.named, hleft.held, hleft.alone,
    fun d other hd hhandled => ?_, fun message hmem => ?_, ?_⟩
  · obtain ⟨hdc, hd'⟩ := update_none hd
    rcases (happend _).mp hhandled with hold | hkey
    · exact hleft.fresh d other hd hold
    · exact hdc (h.alone d c other envelope hd' hc hkey)
  · rcases hlater with rfl | rfl
    · exact hkept message hmem
    · rcases List.mem_append.mp hmem with hmem | hmem
      · exact hkept message hmem
      · rw [List.mem_singleton.mp hmem]
        exact (happend _).mpr (.inr rfl)
  · rcases hlater with rfl | rfl
    · exact h.once
    · refine List.nodup_append.mpr ⟨h.once, List.nodup_singleton _, fun message hmem new hnew => ?_⟩
      rw [List.mem_singleton.mp hnew]
      rintro rfl
      exact h.fresh c envelope hc (h.kept _ hmem)

end Keys

section Slots

variable (options) in
/-- The counters of the server are the numbers of calls, and a slot that is free is not waited
for. -/
structure SlotsInv (active queued : ℤ) (waiters : List ℕ) (calls : List Phase) : Prop where
  running : active = calls.countP Phase.isRunning
  waitingCount : queued = calls.countP Phase.isWaiting
  length : waiters.length = calls.countP Phase.isWaiting
  waiting : ∀ c ∈ waiters, ∃ envelope, calls[c]? = some (.waiting envelope)
  once : waiters.Nodup
  inflight : active ≤ maxInflight options
  bounded : queued ≤ maxQueued options
  full : waiters ≠ [] → active = maxInflight options

variable {active queued : ℤ} {waiters : List ℕ} {calls : List Phase} {c : ℕ} {old new : Phase}

theorem countP_put (hc : calls[c]? = some old) (new : Phase) (p : Phase → Bool) :
    (calls.set c new).countP p + (if p old then 1 else 0) =
      calls.countP p + (if p new then 1 else 0) := by
  obtain ⟨hlt, rfl⟩ := List.getElem?_eq_some_iff.mp hc
  rw [List.countP_set hlt]
  have hpos : p calls[c] = true → 0 < calls.countP p := fun h =>
    List.countP_pos_iff.mpr ⟨_, List.getElem_mem hlt, h⟩
  by_cases h : p calls[c] = true
  · have := hpos h
    simp only [h, if_true]
    omega
  · simp [h]

/-- The calls that wait go on waiting when another one changes. -/
theorem SlotsInv.waiting_put (h : SlotsInv options active queued waiters calls)
    (hc : calls[c]? = some old) (hold : old.isWaiting = false) (new : Phase) {d : ℕ}
    (hd : d ∈ waiters) : ∃ envelope, (calls.set c new)[d]? = some (.waiting envelope) := by
  obtain ⟨envelope, hd⟩ := h.waiting d hd
  have hdc : c ≠ d := by
    rintro rfl
    rw [hd] at hc
    cases hc
    cases hold
  exact ⟨envelope, by rw [List.getElem?_set_ne hdc, hd]⟩

/-- A call that neither takes nor gives back a slot. -/
theorem SlotsInv.put (h : SlotsInv options active queued waiters calls)
    (hc : calls[c]? = some old) (hrunning : old.isRunning = new.isRunning)
    (hold : old.isWaiting = false) (hnew : new.isWaiting = false) :
    SlotsInv options active queued waiters (calls.set c new) := by
  have hcount := countP_put hc new Phase.isRunning
  have hcount' := countP_put hc new Phase.isWaiting
  rw [hrunning, Nat.add_right_cancel_iff] at hcount
  rw [hold, hnew, Nat.add_right_cancel_iff] at hcount'
  refine { h with running := ?_, waitingCount := ?_, length := ?_, waiting := fun d => ?_ }
  · rw [hcount]
    exact h.running
  · rw [hcount']
    exact h.waitingCount
  · rw [hcount']
    exact h.length
  · exact h.waiting_put hc hold new

theorem SlotsInv.waiting_append (h : SlotsInv options active queued waiters calls)
    (phase : Phase) {d : ℕ} (hd : d ∈ waiters) :
    d < calls.length ∧ ∃ envelope, (calls ++ [phase])[d]? = some (.waiting envelope) := by
  obtain ⟨envelope, hd⟩ := h.waiting d hd
  have hlt := (List.getElem?_eq_some_iff.mp hd).1
  exact ⟨hlt, envelope, by rw [List.getElem?_append_left hlt, hd]⟩

/-- A call that begins without a slot and does not wait for one. -/
theorem SlotsInv.begin (h : SlotsInv options active queued waiters calls)
    (hrunning : new.isRunning = false) (hwaiting : new.isWaiting = false) :
    SlotsInv options active queued waiters (calls ++ [new]) := by
  refine { h with
    running := ?_, waitingCount := ?_, length := ?_,
    waiting := fun d hd => (h.waiting_append new hd).2 }
  · rw [List.countP_append, List.countP_singleton, hrunning]
    simpa using h.running
  · rw [List.countP_append, List.countP_singleton, hwaiting]
    simpa using h.waitingCount
  · rw [List.countP_append, List.countP_singleton, hwaiting]
    simpa using h.length

/-- A call that takes a free slot. -/
theorem SlotsInv.take (h : SlotsInv options active queued waiters calls)
    (hfree : active < maxInflight options) (envelope : PeerMessageEnvelope) :
    SlotsInv options (active + 1) queued waiters (calls ++ [.admitted envelope]) := by
  have hnone : waiters = [] := by
    by_contra hne
    exact absurd (h.full hne) (by omega)
  subst hnone
  refine ⟨?_, ?_, ?_, fun d hd => (nomatch hd), .nil, by omega, h.bounded,
    fun hne => absurd rfl hne⟩
  · rw [h.running, List.countP_append]
    rfl
  · rw [h.waitingCount, List.countP_append]
    rfl
  · rw [h.length, List.countP_append]
    rfl

/-- A call that queues. -/
theorem SlotsInv.wait (h : SlotsInv options active queued waiters calls)
    (hfull : ¬ active < maxInflight options) (hroom : ¬ maxQueued options ≤ queued)
    (envelope : PeerMessageEnvelope) :
    SlotsInv options active (queued + 1) (waiters ++ [calls.length])
      (calls ++ [.waiting envelope]) := by
  have hinflight := h.inflight
  refine ⟨?_, ?_, ?_, fun d hd => ?_, ?_, h.inflight, by omega, fun _ => by omega⟩
  · rw [h.running, List.countP_append]
    rfl
  · rw [h.waitingCount, List.countP_append]
    rfl
  · rw [List.length_append, h.length, List.countP_append]
    rfl
  · rcases List.mem_append.mp hd with hd | hd
    · exact (h.waiting_append _ hd).2
    · rw [List.mem_singleton.mp hd]
      exact ⟨envelope, by simp⟩
  · refine List.nodup_append.mpr ⟨h.once, List.nodup_singleton _, fun d hd d' hd' => ?_⟩
    rw [List.mem_singleton.mp hd']
    exact Nat.ne_of_lt (h.waiting_append (.waiting envelope) hd).1

/-- A call that ends while nobody waits frees its slot. -/
theorem SlotsInv.free (h : SlotsInv options active queued [] calls) (hc : calls[c]? = some old)
    (hold : old.isRunning = true) (reply : Reply) :
    SlotsInv options (max 0 (active - 1)) queued [] (calls.set c (.done reply)) := by
  have hwaiting : old.isWaiting = false := by
    cases old <;> first | rfl | cases hold
  have hcount := countP_put hc (.done reply) Phase.isRunning
  have hcount' := countP_put hc (.done reply) Phase.isWaiting
  have hactive := h.running
  have hinflight := h.inflight
  rw [hold] at hcount
  rw [hwaiting] at hcount'
  change _ + 1 = _ + 0 at hcount
  change List.countP _ _ = List.countP _ _ at hcount'
  refine ⟨by omega, ?_, ?_, fun d hd => (nomatch hd), .nil, by omega, h.bounded,
    fun hne => absurd rfl hne⟩
  · rw [hcount']
    exact h.waitingCount
  · rw [hcount']
    exact h.length

/-- A call that ends hands its slot to the call that has waited longest. -/
theorem SlotsInv.handOver {next : ℕ} {rest : List ℕ} {envelope : PeerMessageEnvelope}
    (h : SlotsInv options active queued (next :: rest) calls) (hc : calls[c]? = some old)
    (hold : old.isRunning = true) (hnext : calls[next]? = some (.waiting envelope))
    (reply : Reply) :
    SlotsInv options active (queued - 1) rest
      ((calls.set c (.done reply)).set next (.admitted envelope)) := by
  have hwaiting : old.isWaiting = false := by
    cases old <;> first | rfl | cases hold
  have hne : c ≠ next := by
    rintro rfl
    rw [hnext] at hc
    cases hc
    cases hold
  have hnext' : (calls.set c (.done reply))[next]? = some (.waiting envelope) := by
    rw [List.getElem?_set_ne hne, hnext]
  have hcount := countP_put hc (.done reply) Phase.isRunning
  have hcount' := countP_put hc (.done reply) Phase.isWaiting
  have hcount₂ := countP_put hnext' (.admitted envelope) Phase.isRunning
  have hcount₂' := countP_put hnext' (.admitted envelope) Phase.isWaiting
  have hactive := h.running
  have hqueued := h.waitingCount
  have hlength := h.length
  have hbounded := h.bounded
  obtain ⟨hnotin, honce⟩ := List.nodup_cons.mp h.once
  rw [hold] at hcount
  rw [hwaiting] at hcount'
  rw [List.length_cons] at hlength
  change _ + 1 = _ + 0 at hcount
  change _ + 0 = _ + 0 at hcount'
  change _ + 0 = _ + 1 at hcount₂
  change _ + 1 = _ + 0 at hcount₂'
  refine ⟨by omega, by omega, by omega, fun d hd => ?_, honce, h.inflight, by omega,
    fun _ => h.full (List.cons_ne_nil _ _)⟩
  obtain ⟨other, hd'⟩ := h.waiting_put hc hwaiting (.done reply) (List.mem_cons_of_mem _ hd)
  have hdn : next ≠ d := by
    rintro rfl
    exact hnotin hd
  exact ⟨other, by rw [List.getElem?_set_ne hdn, hd']⟩

end Slots

section Steps

variable (options) in
def World.Keys (w : World) : Prop :=
  KeysInv options w.events w.server.handledMessageIds w.server.activeMessageIds w.returned
    w.delivery

variable (options) in
def World.Slots (w : World) : Prop :=
  SlotsInv options w.server.activeDeliveries w.server.queuedDeliveries w.server.admissionWaiters
    w.calls

variable {w w' : World} {c : ℕ} {phase old : Phase} {envelope : PeerMessageEnvelope}
  {reply : Reply}

theorem keys_leave (hc : w.calls[c]? = some phase)
    (h : KeysInv options w.events w.server.handledMessageIds
      (w.server.activeMessageIds.erase envelope.deliveryKey) w.returned
      (Function.update w.delivery c none)) : (w.leave c envelope reply).Keys options := by
  obtain ⟨hevents, hmemory, hids, hreturned, hdelivery⟩ :=
    releaseAdmission_keeps ((w.put c (.done reply)).forget envelope.deliveryKey)
  have hput : ((w.put c (.done reply)).forget envelope.deliveryKey).delivery =
      Function.update w.delivery c none := delivery_put hc
  rw [World.Keys, World.leave, hevents, hmemory, hids, hreturned, hdelivery, hput]
  exact h

theorem slots_leave (h : w.Slots options) (hc : w.calls[c]? = some old)
    (hold : old.isRunning = true) : (w.leave c envelope reply).Slots options := by
  unfold World.Slots at h
  unfold World.Slots World.leave World.releaseAdmission
  split
  · rename_i next rest hwaiters
    replace hwaiters : w.server.admissionWaiters = next :: rest := hwaiters
    rw [hwaiters] at h
    obtain ⟨other, hnext⟩ := h.waiting next List.mem_cons_self
    have hne : c ≠ next := by
      rintro rfl
      rw [hnext] at hc
      cases hc
      cases hold
    have hnext' : (w.calls.set c (.done reply))[next]? = some (.waiting other) := by
      rw [List.getElem?_set_ne hne, hnext]
    unfold World.wake
    simp only [World.forget, World.put, hnext']
    exact h.handOver hc hold hnext reply
  · rename_i hwaiters
    replace hwaiters : w.server.admissionWaiters = [] := hwaiters
    rw [hwaiters] at h
    simp only [World.forget, World.put, hwaiters]
    exact h.free hc hold reply

theorem trim_peerId {s : String} (h : isPeerId s = true) : trim s = s := by
  obtain ⟨⟨hslug, -⟩, -⟩ : (isSlug s.toList = true ∧ _) ∧ _ := by
    simpa only [isPeerId, Bool.and_eq_true] using h
  rw [← String.ofList_toList (s := s)]
  refine trim_ofList fun c hc => idChar_notWhiteSpace ?_
  cases hchars : s.toList with
  | nil => simp [hchars] at hc
  | cons d rest =>
      rw [hchars] at hc hslug
      simp only [isSlug, Bool.and_eq_true, List.all_eq_true] at hslug
      rcases List.mem_cons.mp hc with rfl | hc
      · simp [hslug.1]
      · have hrest := hslug.2 c hc
        rw [Bool.or_comm (isDigit c)]
        exact hrest

/-- A message that passes the checks is for this peer. -/
theorem checkEnvelope_ok (h : checkEnvelope options envelope = .ok ()) :
    trim options.peerId = options.peerId := by
  unfold checkEnvelope at h
  split at h <;> simp only [throwIf_eq_ok, reduceCtorEq, and_false, not_not] at h
  obtain ⟨-, -, -, hrecipient, -, -, hpeer, -⟩ := h
  rw [← hpeer]
  exact trim_peerId (by simpa using hrecipient)

/-- An event that is no handled message changes nothing that the server promises. -/
theorem World.Keys.record (h : w.Keys options) {event : PeerEvent} (hevent : event.handled = none) :
    (w.recordPeerEvent event).Keys options :=
  KeysInv.record h hevent

theorem begin_done_inv (h : w.Keys options ∧ w.Slots options) (reply : Reply) :
    (w.begin_ (.done reply)).Keys options ∧ (w.begin_ (.done reply)).Slots options := by
  obtain ⟨hkeys, hslots⟩ := h
  refine ⟨?_, SlotsInv.begin hslots rfl rfl⟩
  have hsame : Function.update w.delivery w.calls.length none = w.delivery :=
    Function.update_eq_self_iff.mpr (delivery_length w).symm
  rw [World.Keys, delivery_begin, show (Phase.done reply).inFlight = none from rfl, hsame]
  exact hkeys

/-- What a call that asks for admission needs. -/
theorem acquireAdmission_inv (hslots : w.Slots options)
    (hkeys : KeysInv options w.events w.server.handledMessageIds w.server.activeMessageIds
      w.returned (Function.update w.delivery w.calls.length (some envelope))) :
    (w.acquireAdmission options envelope).Keys options ∧
      (w.acquireAdmission options envelope).Slots options := by
  have hbegin (phase : Phase) (hphase : phase.inFlight = some envelope) :
      KeysInv options w.events w.server.handledMessageIds w.server.activeMessageIds w.returned
        (w.begin_ phase).delivery := by
    rw [delivery_begin, hphase]
    exact hkeys
  unfold World.acquireAdmission
  split
  · rename_i hfree
    exact ⟨hbegin (.admitted envelope) rfl, SlotsInv.take hslots hfree envelope⟩
  · rename_i hfull
    split
    · exact ⟨hbegin (.refused envelope) rfl, SlotsInv.begin hslots rfl rfl⟩
    · rename_i hroom
      exact ⟨hbegin (.waiting envelope) rfl, SlotsInv.wait hslots hfull hroom envelope⟩

theorem receive_inv (h : w.Keys options ∧ w.Slots options) (envelope : PeerMessageEnvelope)
    (now : ℤ) :
    (receive options w envelope now).Keys options ∧
      (receive options w envelope now).Slots options := by
  unfold receive
  split
  · dsimp only
    split
    · exact begin_done_inv ⟨h.1.record rfl, h.2⟩ _
    · exact begin_done_inv h _
  · rename_i hcheck
    obtain ⟨hkeys, hslots⟩ := h
    have hread (key : String) := getHandledMessageIds_isSome fun map hmap =>
      hkeys.memory map hmap key
    have hloaded := hkeys.load hread
    let v : World := { w with server := { w.server with
      handledMessageIds := some (getHandledMessageIds options w.events w.server) } }
    have hv : v.Keys options ∧ v.Slots options := ⟨hloaded, hslots⟩
    dsimp only
    split
    · exact begin_done_inv hv _
    · rename_i hnone
      split
      · exact begin_done_inv hv _
      · rename_i hids
        refine acquireAdmission_inv hslots ?_
        refine hloaded.enter (checkEnvelope_ok hcheck) hids fun hhandled => ?_
        have := (hread envelope.deliveryKey).mpr hhandled
        rw [hnone] at this
        cases this

/-- Marking a message in flight as handled and leaving. -/
theorem markHandled_leave_inv (h : w.Keys options ∧ w.Slots options)
    (hcall : w.calls[c]? = some phase) (hphase : phase.inFlight = some envelope)
    (hrunning : phase.isRunning = true) (now : ℤ) {later : List (String × String)}
    (hlater : later = w.returned ∨
      later = w.returned ++ [(envelope.senderPeerId, envelope.messageId)]) :
    let v := ({ w.markHandled options envelope now with returned := later } : World)
    (v.leave c envelope reply).Keys options ∧ (v.leave c envelope reply).Slots options := by
  intro v
  obtain ⟨hkeys, hslots⟩ := h
  have hin : w.delivery c = some envelope := (delivery_of hcall).trans hphase
  refine ⟨keys_leave (w := v) hcall ?_, slots_leave (w := v) hslots hcall hrunning⟩
  refine KeysInv.settle hkeys hin rfl rfl (fun key => ?_) hlater
  let event : PeerEvent := {
    ts := now
    peerId := options.peerId
    type := .messageHandled
    messageId := envelope.messageId
    senderPeerId := some envelope.senderPeerId
    processedAt := some now }
  have hevent : event.handled = some (envelope.deliveryKey, now) := rfl
  have happend := handled_append w.events hevent (hkeys.named c envelope hin).symm key
  by_cases hkey : key = envelope.deliveryKey
  · subst hkey
    rw [Function.update_self]
    exact ⟨fun _ => happend.mpr (.inr rfl), fun _ => rfl⟩
  · rw [Function.update_of_ne hkey]
    refine getHandledMessageIds_isSome fun map hmap => ?_
    refine (hkeys.memory map hmap key).trans (Iff.trans ?_ happend.symm)
    exact ⟨.inl, fun h => h.resolve_right hkey⟩

theorem resume_inv (h : w.Keys options ∧ w.Slots options) {now : ℤ}
    (hstep : resume options w c now = some w') : w'.Keys options ∧ w'.Slots options := by
  unfold resume at hstep
  split at hstep
  · -- the queue was full
    rename_i envelope hcall
    obtain rfl := Option.some.inj hstep
    refine ⟨?_, SlotsInv.put h.2 hcall rfl rfl rfl⟩
    have hdrop := KeysInv.drop h.1 (delivery_of hcall)
    rw [World.Keys, delivery_put (w := (w.forget _).recordPeerEvent _) hcall]
    exact hdrop.record rfl
  · rename_i envelope hcall
    dsimp only at hstep
    have hrecorded : (w.recordPeerEvent {
      ts := now
      peerId := options.peerId
      type := .messageReceived
      messageId := envelope.messageId
      senderPeerId := some envelope.senderPeerId }).Keys options := h.1.record rfl
    split at hstep
    · -- the responder starts
      obtain rfl := Option.some.inj hstep
      refine ⟨?_, SlotsInv.put h.2 hcall rfl rfl rfl⟩
      rw [World.Keys, delivery_put (w := w.recordPeerEvent _) hcall,
        Function.update_eq_self_iff.mpr (delivery_of (w := w.recordPeerEvent _) hcall).symm]
      exact hrecorded
    · obtain rfl := Option.some.inj hstep
      exact markHandled_leave_inv (w := w.recordPeerEvent _) ⟨hrecorded, h.2⟩ hcall rfl rfl now
        (.inl rfl)
  · cases hstep

theorem respond_inv (h : w.Keys options ∧ w.Slots options) {outcome : ResponderOutcome} {now : ℤ}
    (hstep : respond options w c outcome now = some w') : w'.Keys options ∧ w'.Slots options := by
  unfold respond at hstep
  split at hstep
  · rename_i _ envelope hcall
    obtain rfl := Option.some.inj hstep
    exact markHandled_leave_inv h hcall rfl rfl now (.inr rfl)
  · rename_i _ envelope code message hcall
    obtain rfl := Option.some.inj hstep
    have hrecorded : (w.recordPeerEvent {
      ts := now
      peerId := options.peerId
      type := .messageError
      messageId := envelope.messageId
      reason := some code }).Keys options := h.1.record rfl
    exact ⟨keys_leave (w := w.recordPeerEvent _) hcall (hrecorded.drop (delivery_of hcall)),
      slots_leave (w := w.recordPeerEvent _) h.2 hcall rfl⟩
  · cases hstep

theorem step_inv (h : w.Keys options ∧ w.Slots options) {a : ServerAction}
    (hstep : (peerServer options).step w a = some w') :
    w'.Keys options ∧ w'.Slots options := by
  cases a with
  | receive envelope now =>
      obtain rfl := Option.some.inj hstep
      exact receive_inv h envelope now
  | resume c now => exact resume_inv h hstep
  | respond c outcome now => exact respond_inv h hstep
  | restart =>
      obtain ⟨hdone, hw⟩ := Option.ite_none_right_eq_some.mp hstep
      obtain rfl := Option.some.inj hw
      obtain ⟨hkeys, hslots⟩ := h
      have hall (phase : Phase) (hmem : phase ∈ w.calls) : ∃ reply, phase = .done reply := by
        have := List.all_eq_true.mp hdone phase hmem
        cases phase with
        | done reply => exact ⟨reply, rfl⟩
        | _ => cases this
      have hnone (p : Phase → Bool) (hp : ∀ reply, p (.done reply) = false) :
          w.calls.countP p = 0 := by
        refine List.countP_eq_zero.mpr fun phase hmem => ?_
        obtain ⟨reply, rfl⟩ := hall phase hmem
        simp [hp]
      have hdelivery (c : ℕ) (envelope : PeerMessageEnvelope) : w.delivery c ≠ some envelope := by
        intro hc
        obtain ⟨phase, hcall, hphase⟩ := Option.bind_eq_some_iff.mp hc
        obtain ⟨reply, rfl⟩ := hall phase (List.mem_of_getElem? hcall)
        cases hphase
      refine ⟨⟨fun _ hmap => (nomatch hmap), fun c e hc => absurd hc (hdelivery c e),
        fun c e hc => absurd hc (hdelivery c e), fun c _ e _ hc => absurd hc (hdelivery c e),
        fun c e hc => absurd hc (hdelivery c e), hkeys.kept, hkeys.once⟩, ?_⟩
      have hrunning := hnone Phase.isRunning fun _ => rfl
      have hwaiting := hnone Phase.isWaiting fun _ => rfl
      refine ⟨by simp [hrunning], by simp [hwaiting], by simp [hwaiting], fun d hd => (nomatch hd),
        .nil, ?_, le_max_left _ _, fun hne => absurd rfl hne⟩
      exact Int.le_trans Int.one_nonneg (le_max_left _ _)

end Steps

/-- Each message is handled by one responder at most and by one at a time; no more deliveries run
or wait than the options allow; and none waits while none runs. -/
theorem peer_deliveries_once_and_bounded {w : World} (h : (peerServer options).Reachable w) :
    w.returned.Nodup ∧
      (∀ (c d : ℕ) (envelope other : PeerMessageEnvelope),
        w.calls[c]? = some (.responding envelope) → w.calls[d]? = some (.responding other) →
        envelope.senderPeerId = other.senderPeerId → envelope.messageId = other.messageId →
        c = d) ∧
      w.calls.countP Phase.isRunning ≤ maxInflight options ∧
      w.calls.countP Phase.isWaiting ≤ maxQueued options ∧
      (w.calls.countP Phase.isRunning = 0 → w.calls.countP Phase.isWaiting = 0) := by
  obtain ⟨hkeys, hslots⟩ : w.Keys options ∧ w.Slots options := by
    refine h.invariant (fun w hinit => ?_) fun w a w' h _ hstep => step_inv h hstep
    obtain rfl : w = {} := hinit
    refine ⟨⟨fun _ hmap => (nomatch hmap), fun _ _ hc => (nomatch hc), fun _ _ hc => (nomatch hc),
      fun _ _ _ _ hc => (nomatch hc), fun _ _ hc => (nomatch hc), fun _ hmem => (nomatch hmem),
      .nil⟩, ⟨rfl, rfl, rfl, fun d hd => (nomatch hd), .nil, ?_, le_max_left _ _,
      fun hne => absurd rfl hne⟩⟩
    exact Int.le_trans Int.one_nonneg (le_max_left _ _)
  refine ⟨hkeys.once, fun c d envelope other hc hd hsender hid => ?_, ?_, ?_, fun hidle => ?_⟩
  · refine hkeys.alone c d envelope other (delivery_of hc) (delivery_of hd) ?_
    rw [PeerMessageEnvelope.deliveryKey, hsender, hid]
    rfl
  · rw [← hslots.running]
    exact hslots.inflight
  · rw [← hslots.waitingCount]
    exact hslots.bounded
  · have hnone : w.server.admissionWaiters = [] := by
      by_contra hne
      have hfull := hslots.full hne
      have hone : 1 ≤ maxInflight options := le_max_left _ _
      rw [hslots.running, hidle] at hfull
      omega
    rw [← hslots.length, hnone]
    rfl

def oneAtATime : PeerMessagingServerOptions where
  peerId := "peer-b"
  tenantId := "acme"
  responder := true
  maxInflight := some 1
  verifyPeerMessage _ := true
  isTimestamp _ := true

def message (messageId : String) : PeerMessageEnvelope where
  tenantId := "acme"
  messageId
  conversationId := "PC-1"
  type := .request
  senderPeerId := "peer-a"
  recipientPeerId := "peer-b"
  subject := "s"
  payload := "{}"
  createdAt := "2026-01-01T00:00:00.000Z"
  scope := { scopeKind := some .tenant, tier := some .confidential, tenantSlug := some "acme" }

theorem peer_deliveries_once_and_bounded_in_turn :
    ∃ w : World, (w.returned = [("peer-a", "PM-2"), ("peer-a", "PM-1")] ∧
      w.calls.countP Phase.isRunning = 0) ∧ w.calls.countP Phase.isWaiting = 0 := by
  obtain ⟨w, hs, hw⟩ := System.exists_reachable_of_exec (S := peerServer oneAtATime) (s := {})
    [.receive (message "PM-1") 1, .receive (message "PM-2") 2, .resume 0 3,
      .receive (message "PM-1") 4, .respond 0 (.failed "E" "failed") 5, .resume 1 6,
      .respond 1 .returned 7, .restart, .receive (message "PM-2") 8, .receive (message "PM-1") 9,
      .resume 4 10, .respond 4 .returned 11]
    (fun w => w.returned = [("peer-a", "PM-2"), ("peer-a", "PM-1")] ∧
      w.calls.countP Phase.isRunning = 0) rfl (by decide +kernel)
  exact ⟨w, hw, (peer_deliveries_once_and_bounded hs).2.2.2.2 hw.2⟩

end Kyberion.Mesh.PeerServer
