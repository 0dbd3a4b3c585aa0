import Httpancake.Reactor.ArmedTimers

/-! # What a cancellation stops

After `cancel_in_loop` a timer is gone, or it is in the batch, its callback was started, and its id
is kept until `reset` deletes it: it is `Doomed`, and stays so. The exceptions are a timer of the
batch whose callback was not started, and one whose `add_timer_in_loop` has not run
(`cancel_effective_iff`). -/

namespace Httpancake.TimerLoop

variable {s s' : TimerLoop} {place : Ptr → Place} {p : Ptr} {a : TimerAction}
  {o : Option TimerEffect} {id : ActiveTimer}

/-- The timers of the batch whose callbacks are still to be started. -/
def unstarted (s : TimerLoop) : List Ptr :=
  match s.frame with
  | .calling _ expired started => (expired.drop started).map Prod.snd
  | _ => []

/-- From `s` on the callback of the timer is not started and the timer does not wait any more. -/
def Stopped (s : TimerLoop) (p : Ptr) : Prop :=
  ∀ s₁, program.Reachable s s₁ → (∀ t, ¬ s₁.queue.Armed p t) ∧
    ∀ a s₂, program.pre s₁ a → program.exec s₁ a ≠ some (s₂, some (.run p))

/-- The id is that of a timer that was made; the timer may be gone. -/
def IdOf (s : TimerLoop) (id : ActiveTimer) : Prop :=
  id.1.obj < s.queue.heap.made ∧ ∀ t, s.queue.heap.deref id.1 = some t → id.2 = t.sequence

/-- The timer is gone, or it will go when `reset` comes to it. -/
inductive Doomed (s : TimerLoop) (p : Ptr) : Prop
  | gone (hmade : p.obj < s.queue.heap.made) (hgone : s.queue.heap.deref p = none)
  | held (hheld : p ∈ s.held) (hstarted : p ∉ s.unstarted)
    (hcanceling : ∀ t, s.queue.heap.deref p = some t →
      s.queue.cancelingTimers.find? (ActiveTimer.of p t).key ≠ none)

namespace Doomed

theorem not_armed (hd : s.Doomed p) (h : s.Inv place) (t : Timer) : ¬ s.queue.Armed p t := by
  intro ht
  obtain ⟨ht, hact⟩ := h.queue.armed_iff.mp ht
  cases hd with
  | gone _ hgone => rw [hgone] at ht; cases ht
  | held hheld =>
    rw [((h.held p).mp hheld).1] at hact
    cases hact

theorem obj_lt_made (hd : s.Doomed p) (h : s.Inv place) : p.obj < s.queue.heap.made := by
  cases hd with
  | gone hmade => exact hmade
  | held hheld =>
    obtain ⟨-, t, ht⟩ := (h.held p).mp hheld
    exact Heap.obj_lt_made ht

/-- Outside `handle_read` it is gone. -/
theorem of_held_eq_nil (hd : s.Doomed p) (hheld : s.held = [])
    (hmade : s'.queue.heap.made = s.queue.heap.made)
    (hderef : s'.queue.heap.deref p = s.queue.heap.deref p) : s'.Doomed p := by
  cases hd with
  | gone hlt hgone => exact .gone (hmade ▸ hlt) (hderef.trans hgone)
  | held hmem => rw [hheld] at hmem; cases hmem

/-- A step that moves nothing into the batch or out of it. -/
theorem mono (hd : s.Doomed p) (hmade : s'.queue.heap.made = s.queue.heap.made)
    (hderef : s'.queue.heap.deref p = s.queue.heap.deref p) (hheld : s'.held = s.held)
    (hstarted : s'.unstarted ⊆ s.unstarted)
    (hcanceling : ∀ k, s.queue.cancelingTimers.find? k ≠ none →
      s'.queue.cancelingTimers.find? k ≠ none) : s'.Doomed p := by
  cases hd with
  | gone hlt hgone => exact .gone (hmade ▸ hlt) (hderef.trans hgone)
  | held hmem hno hfind =>
    refine .held (hheld ▸ hmem) (fun h => hno (hstarted h)) fun t ht => ?_
    exact hcanceling _ (hfind t (hderef ▸ ht))

theorem newTimer (hd : s.Doomed p) (h : s.Inv place) {addr : Nat} {when_ : Timestamp}
    {interval : Interval} (hfree : s.queue.heap.Free addr)
    (hexec : exec s (.newTimer addr when_ interval) = some (s', o)) :
    s'.Doomed p ∧ o ≠ some (.run p) := by
  have hne : p ≠ s.queue.heap.newPtr addr := by
    rintro rfl
    exact (hd.obj_lt_made h).ne rfl
  cases hexec
  refine ⟨?_, by simp⟩
  have hderef : (s.queue.heap.new addr (.make ((s.sNumCreated + 1).bmod (2 ^ 64)) when_
      interval)).deref p = s.queue.heap.deref p := by
    rw [Heap.deref_new hfree, if_neg hne]
  cases hd with
  | gone hmade hgone => exact .gone (Nat.lt_succ_of_lt hmade) (hderef.trans hgone)
  | held hheld hstarted hfind =>
    exact .held hheld hstarted fun t ht => hfind t (hderef.symm.trans ht)

theorem cancelInLoop (hd : s.Doomed p) (h : s.Inv place)
    (hexec : exec s (.cancelInLoop id) = some (s', o)) : s'.Doomed p ∧ o ≠ some (.run p) := by
  obtain ⟨q', hexec', hcancels, -⟩ := h.cancelInLoop id
  cases hexec.symm.trans hexec'
  refine ⟨?_, by simp⟩
  have hderef : place p = .expired ∨ s.queue.heap.deref p = none →
      q'.heap.deref p = s.queue.heap.deref p := by
    intro hp
    by_cases hact : place p = .active
    · rw [hact] at hp
      cases hcancels with
      | hit _ _ _ hderef => simp [hderef, hp.resolve_left nofun]
      | missed _ hheap => rw [hheap]
    · exact hcancels.deref_of_not_active p hact
  refine hd.mono hcancels.made_eq (hderef ?_) rfl (List.Subset.refl _) fun k hk => ?_
  · cases hd with
    | gone _ hgone => exact .inr hgone
    | held hheld => exact .inl ((h.held p).mp hheld).1
  · cases hcancels with
    | hit _ _ _ _ _ _ hcanceling => exact hcanceling ▸ hk
    | missed _ _ _ _ hcanceling =>
      rw [hcanceling]
      split
      · exact OrderedSet.find?_insert_ne_none_iff.mpr (.inl hk)
      · exact hk

theorem callback (hd : s.Doomed p) (h : s.Inv place) (hpre : Pre s .callback)
    (hexec : exec s .callback = some (s', o)) : s'.Doomed p ∧ o ≠ some (.run p) := by
  obtain ⟨now, expired, started, hframe, hlt⟩ := hpre
  have hheld : s.held = expired.map Prod.snd := by rw [TimerLoop.held, hframe]; rfl
  have hunstarted : s.unstarted = (expired.drop started).map Prod.snd := by
    rw [unstarted, hframe]
  obtain ⟨hexec', -⟩ := h.callback hframe hlt
  cases hexec.symm.trans hexec'
  have hdrop := List.drop_eq_getElem_cons hlt
  constructor
  · refine hd.mono rfl rfl hheld.symm ?_ fun _ hk => hk
    rw [hunstarted, hdrop, List.map_cons]
    exact List.subset_cons_self _ _
  · intro heq
    obtain rfl : expired[started].2 = p := by simpa using heq
    cases hd with
    | gone _ hgone =>
      obtain ⟨-, t, ht⟩ := (h.held expired[started].2).mp
        (hheld ▸ List.mem_map_of_mem (List.getElem_mem hlt))
      rw [hgone] at ht
      cases ht
    | held _ hstarted =>
      apply hstarted
      rw [hunstarted, hdrop, List.map_cons]
      exact List.mem_cons_self

theorem resetOne (hd : s.Doomed p) (h : s.Inv place) (hpre : Pre s .resetOne)
    (hexec : exec s .resetOne = some (s', o)) : s'.Doomed p ∧ o ≠ some (.run p) := by
  obtain ⟨now, e, expired, hframe⟩ := hpre
  obtain ⟨t, q', ht, -, hexec', hresets, -⟩ := h.resetOne hframe
  cases hexec.symm.trans hexec'
  have hmade := hresets.made_eq
  have hcanceling := hresets.canceling_eq
  refine ⟨?_, by simp⟩
  cases hd with
  | gone hlt hgone =>
    have hne : p ≠ e.2 := by
      rintro rfl
      rw [hgone] at ht
      cases ht
    exact .gone (hmade.symm ▸ hlt) ((hresets.deref_of_ne hne).trans hgone)
  | held hheld hstarted hfind =>
    rw [TimerLoop.held, hframe] at hheld
    rcases List.mem_cons.mp hheld with rfl | hrest
    · -- its id is kept: it is not put back
      cases hresets with
      | kept hkeep => exact absurd hkeep.2 (hfind t ht)
      | deleted _ hderef =>
        refine .gone (hmade.symm ▸ Heap.obj_lt_made ht) ?_
        rw [hderef, if_pos rfl]
    · have hne : p ≠ e.2 := by
        have hnodup := h.nodup
        rw [TimerLoop.held, hframe] at hnodup
        rintro rfl
        exact (List.nodup_cons.mp hnodup).1 hrest
      refine .held hrest List.not_mem_nil fun u hu => ?_
      rw [hcanceling]
      exact hfind u ((hresets.deref_of_ne hne).symm.trans hu)

/-- Nothing brings a doomed timer back. -/
theorem step (hd : s.Doomed p) (h : s.Inv place) (hpre : Pre s a)
    (hexec : exec s a = some (s', o)) : s'.Doomed p ∧ o ≠ some (.run p) := by
  cases a with
  | newTimer => exact hd.newTimer h hpre.1 hexec
  | addTimerInLoop timer clock =>
    obtain ⟨t, -, -, hexec', -⟩ := h.addTimerInLoop hpre.2 clock
    cases hexec.symm.trans hexec'
    refine ⟨hd.mono rfl rfl rfl (List.Subset.refl _) fun _ hk => hk, ?_⟩
    split <;> simp
  | cancelInLoop => exact hd.cancelInLoop h hexec
  | handleRead now =>
    have hheld : s.held = [] := by rw [TimerLoop.held, show s.frame = .idle from hpre]; rfl
    obtain ⟨s₁, hexec', hheap, -⟩ := h.handleRead hpre now
    cases hexec.symm.trans hexec'
    exact ⟨hd.of_held_eq_nil hheld (by rw [hheap]) (by rw [hheap]), by simp⟩
  | callback => exact hd.callback h hpre hexec
  | endCallbacks =>
    obtain ⟨now, expired, hframe⟩ := hpre
    have hheld : s.held = expired.map Prod.snd := by rw [TimerLoop.held, hframe]; rfl
    obtain ⟨hexec', -⟩ := h.endCallbacks hframe
    cases hexec.symm.trans hexec'
    exact ⟨hd.mono rfl rfl hheld.symm (List.nil_subset _) fun _ hk => hk, by simp⟩
  | resetOne => exact hd.resetOne h hpre hexec
  | endReset clock =>
    obtain ⟨now, hframe⟩ := hpre
    have hheld : s.held = [] := by rw [TimerLoop.held, hframe]; rfl
    obtain ⟨hexec', -⟩ := h.endReset hframe clock
    cases hexec.symm.trans hexec'
    refine ⟨hd.of_held_eq_nil hheld rfl rfl, ?_⟩
    split
    · simp
    · split <;> simp

theorem stopped (hd : s.Doomed p) (h : s.Inv place) : s.Stopped p := by
  have hdoomed : ∀ s₁, program.Reachable s s₁ → s₁.Doomed p ∧ ∃ place, s₁.Inv place := by
    intro s₁ hs₁
    induction hs₁ with
    | start => exact ⟨hd, place, h⟩
    | step _ hpre hexec ih =>
      obtain ⟨hd, place, h⟩ := ih
      exact ⟨(hd.step h hpre hexec).1, h.preserved hpre hexec⟩
  intro s₁ hs₁
  obtain ⟨hd, place, h⟩ := hdoomed s₁ hs₁
  exact ⟨hd.not_armed h, fun a s₂ hpre hexec => (hd.step h hpre hexec).2 rfl⟩

end Doomed

/-- A cancel that finds a batch runs in one of its callbacks. -/
theorem callingExpiredTimers_of_held (hreach : program.Reachable .init s) (hmay : s.MayCall)
    (hheld : p ∈ s.held) : s.queue.callingExpiredTimers = true := by
  cases hframe : s.frame with
  | idle => simp [TimerLoop.held, hframe, HandleRead.held] at hheld
  | calling => exact callingExpiredTimers_of_calling hreach hframe
  | resetting =>
    rw [MayCall, hframe] at hmay
    cases hmay

/-- Cancelling dooms a timer unless its callback is still to be started or it is handed over. -/
theorem Inv.doomed_of_cancel (h : s.Inv place) (hreach : program.Reachable .init s)
    (hpre : program.pre s (.cancelInLoop id))
    (hexec : program.exec s (.cancelInLoop id) = some (s', o)) (hid : s.IdOf id)
    (hstarted : id.1 ∉ s.unstarted) (hhanded : id.1 ∉ s.handedOver) : s'.Doomed id.1 := by
  obtain ⟨q', hexec', hcancels, -⟩ := h.cancelInLoop id
  cases hexec.symm.trans hexec'
  have hmade : id.1.obj < q'.heap.made := hcancels.made_eq.symm ▸ hid.1
  cases ht : s.queue.heap.deref id.1 with
  | none =>
    refine .gone hmade ?_
    cases hcancels with
    | hit _ _ _ hderef =>
      rw [hderef, ht]
      exact ite_self _
    | missed _ hheap =>
      rw [hheap]
      exact ht
  | some t =>
    have hkey : (ActiveTimer.of id.1 t).key = id.key := by
      rw [show ActiveTimer.of id.1 t = id from Prod.ext rfl (hid.2 t ht).symm]
    have hfound {r : Ptr} {u : Timer} (hu : s.queue.heap.deref r = some u)
        (heq : (ActiveTimer.of r u).key = id.key) : id.1 = r :=
      ActiveTimer.separates.eq_of_key ht hu (hkey.trans heq.symm)
    cases hp : place id.1 with
    | handedOver => exact absurd ((h.handedOver id.1).mpr ⟨hp, t, ht⟩) hhanded
    | active =>
      cases hcancels with
      | hit hu _ heq hderef =>
        refine .gone hmade ?_
        rw [hderef, if_pos (hfound hu heq)]
      | missed hnone => exact absurd hkey (hnone id.1 t ht hp)
    | expired =>
      have hheld : id.1 ∈ s.held := (h.held id.1).mpr ⟨hp, t, ht⟩
      refine .held hheld hstarted fun u hu => ?_
      have hsame := hcancels.deref_of_not_active id.1 (by rw [hp]; nofun)
      obtain rfl : t = u := Option.some.inj (ht.symm.trans (hsame.symm.trans hu))
      cases hcancels with
      | hit hu hact heq =>
        rw [← hfound hu heq, hp] at hact
        cases hact
      | missed _ _ _ _ hcanceling =>
        -- the id is kept, since callbacks are running
        rw [hcanceling, if_pos (callingExpiredTimers_of_held hreach hpre hheld), hkey]
        exact OrderedSet.find?_insert_ne_none_iff.mpr (.inr rfl)

/-- The callbacks of the batch can be started one after the other. -/
theorem Inv.reach_callback (h : s.Inv place) {now : Timestamp} {expired : List Entry}
    {started k : Nat} (hframe : s.frame = .calling now expired started) (hle : started ≤ k)
    (hlt : k < expired.length) :
    ∃ s₁, program.Reachable s s₁ ∧ s₁.frame = .calling now expired k ∧ s₁.Inv place := by
  induction k, hle using Nat.le_induction with
  | base => exact ⟨s, .start, hframe, h⟩
  | succ k _ ih =>
    have hk : k < expired.length := Nat.lt_of_succ_lt hlt
    obtain ⟨s₁, hs₁, hframe₁, h₁⟩ := ih hk
    obtain ⟨hexec, h₂⟩ := h₁.callback hframe₁ hk
    exact ⟨_, hs₁.next .callback ⟨now, expired, k, hframe₁, hk⟩ hexec, rfl, h₂⟩

/-- A callback that was not started can be. -/
theorem Inv.not_stopped_of_unstarted (h : s.Inv place) (hp : p ∈ s.unstarted) : ¬ s.Stopped p := by
  intro hstop
  cases hframe : s.frame with
  | calling now expired started =>
    rw [unstarted, hframe] at hp
    obtain ⟨e, he, rfl⟩ := List.mem_map.mp hp
    obtain ⟨k, hk, rfl⟩ := List.mem_iff_getElem.mp he
    rw [List.length_drop] at hk
    obtain ⟨s₁, hs₁, hframe₁, h₁⟩ :=
      h.reach_callback hframe (Nat.le_add_right started k) (by omega)
    obtain ⟨hexec, -⟩ := h₁.callback hframe₁ (by omega)
    rw [List.getElem_drop] at hstop
    exact (hstop s₁ hs₁).2 .callback _ ⟨now, expired, _, hframe₁, by omega⟩ hexec
  | idle | resetting =>
    rw [unstarted, hframe] at hp
    cases hp

/-- A timer that is handed over can be added. -/
theorem Inv.not_stopped_of_handedOver (h : s.Inv place) (hmay : s.MayCall) (hp : p ∈ s.handedOver) :
    ¬ s.Stopped p := by
  intro hstop
  obtain ⟨t, ht, hplace, hexec, -⟩ := h.addTimerInLoop hp 0
  refine (hstop _ (.next .start (.addTimerInLoop p 0) ⟨hmay, hp⟩ hexec)).1 t ?_
  exact (h.queue.armed_put ht (by rw [hplace]; nofun)).mpr (.inl ⟨rfl, rfl⟩)

/-- **Cancellation.** After `cancel_in_loop` the timer's callback is never started and the timer is
never in the queue again, exactly when it was not in the batch with its callback still to be
started, and its `add_timer_in_loop` had run. -/
theorem cancel_effective_iff (h : program.Reachable .init s)
    (hpre : program.pre s (.cancelInLoop id))
    (hexec : program.exec s (.cancelInLoop id) = some (s', o)) (hid : s.IdOf id) :
    s'.Stopped id.1 ↔ id.1 ∉ s.unstarted ∧ id.1 ∉ s.handedOver := by
  obtain ⟨place, hs⟩ := Inv.of_reachable h
  obtain ⟨q', hexec', -, hs'⟩ := hs.cancelInLoop id
  constructor
  · intro hstop
    cases hexec.symm.trans hexec'
    exact ⟨fun hp => hs'.not_stopped_of_unstarted hp hstop,
      fun hp => hs'.not_stopped_of_handedOver hpre hp hstop⟩
  · intro hcond
    have hdoomed := hs.doomed_of_cancel h hpre hexec hid hcond.1 hcond.2
    cases hexec.symm.trans hexec'
    exact hdoomed.stopped hs'

/-- A timer that waits is cancelled. -/
theorem cancel_effective_waiting : ∃ s s' : TimerLoop, program.Reachable .init s ∧
    program.exec s (.cancelInLoop (⟨8, 0⟩, 1)) = some (s', none) ∧ s'.Stopped ⟨8, 0⟩ := by
  have hnew : program.Reachable .init _ :=
    .next .start (.newTimer 8 5 ⟨true, 10⟩) ⟨rfl, by decide⟩ rfl
  have hadd := hnew.next (.addTimerInLoop ⟨8, 0⟩ 1) ⟨trivial, List.mem_cons_self⟩ rfl
  have hstop := @cancel_effective_iff _ _ _ (⟨8, 0⟩, 1) hadd trivial rfl
    ⟨Nat.zero_lt_one, fun t ht => by cases ht; rfl⟩
  exact ⟨_, _, hadd, rfl, hstop.mpr ⟨List.not_mem_nil, List.not_mem_nil⟩⟩

/-- The first of two due timers cancels the second, which runs all the same. -/
theorem cancel_not_effective : ∃ s s' : TimerLoop, program.Reachable .init s ∧
    program.pre s (.cancelInLoop (⟨16, 1⟩, 2)) ∧
    program.exec s (.cancelInLoop (⟨16, 1⟩, 2)) = some (s', none) ∧ s.IdOf (⟨16, 1⟩, 2) ∧
    ¬ s'.Stopped ⟨16, 1⟩ := by
  have hnew : program.Reachable .init _ :=
    .next .start (.newTimer 8 5 ⟨false, 0⟩) ⟨rfl, by decide⟩ rfl
  have hadd := hnew.next (.addTimerInLoop ⟨8, 0⟩ 1) ⟨trivial, List.mem_cons_self⟩ rfl
  have hnew₁ := hadd.next (.newTimer 16 6 ⟨false, 0⟩) ⟨rfl, by decide⟩ rfl
  have hadd₁ := hnew₁.next (.addTimerInLoop ⟨16, 1⟩ 1) ⟨trivial, List.mem_cons_self⟩ rfl
  have hread := hadd₁.next (.handleRead 7) rfl rfl
  have hcallback := hread.next .callback ⟨7, _, 0, rfl, Nat.zero_lt_two⟩ rfl
  refine ⟨_, _, hcallback, Nat.zero_lt_one, rfl,
    ⟨Nat.one_lt_two, fun t ht => by cases ht; rfl⟩, fun hstop => ?_⟩
  exact (hstop _ .start).2 .callback _ ⟨7, _, 1, rfl, Nat.one_lt_two⟩ rfl

end Httpancake.TimerLoop
