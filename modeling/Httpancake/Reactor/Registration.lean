import Httpancake.Lib.Program
import Httpancake.Reactor.Poller
import Mathlib.Data.List.Forall2
import Mathlib.Logic.Function.Basic

/-! # The handlers of one poller

`PollerSystem` holds the handlers that exist and, for each descriptor, what `handlerList_` and the
epoll set say. Whatever the handlers enable, disable and remove, the three agree, and what
`epoll_wait` returns is a handler that exists (`poller_agrees`). A handler whose events were all
disabled may be in the epoll set again when it is updated once more (`unwatched_iff`). -/

namespace Httpancake

/-- A function of `Handler` that changes `events_` and calls `update`. -/
inductive HandlerCall where
  | enableReading | enableWriting | disableReading | disableWriting | disableAll
deriving DecidableEq, Repr

def HandlerCall.events (events : EventMask) : HandlerCall → EventMask
  | enableReading => events.union .readEvent
  | enableWriting => events.union .writeEvent
  | disableReading => events.diff .readEvent
  | disableWriting => events.diff .writeEvent
  | disableAll => .none

def Handler.call (this : Nat) (h : Handler) (w : Watched) (c : HandlerCall) :
    Option (Handler × Watched) :=
  updateHandler this { h with events := c.events h.events } w

structure PollerSystem where
  /-- The handlers that exist, each with its descriptor. -/
  handlers : Nat → Option (Nat × Handler)
  watched : Nat → Watched

inductive PollerAction where
  /-- A handler for the descriptor `fd`. -/
  | make (this fd : Nat)
  | call (this : Nat) (c : HandlerCall)
  | removeHandler (this : Nat)
  /-- A handler that is not listed is destroyed, and its descriptor closed. -/
  | discard (this : Nat)
  /-- `epoll_wait` returns the descriptors with their events. -/
  | poll (ready : List (Nat × EventMask))

namespace PollerSystem

def init : PollerSystem where
  handlers := fun _ => none
  watched := fun _ => ⟨none, none⟩

/-- The state after a function of a handler. -/
def set (s : PollerSystem) (this fd : Nat) (h : Handler) (w : Watched) : PollerSystem where
  handlers := Function.update s.handlers this (some (fd, h))
  watched := Function.update s.watched fd w

/-- The loop of `Poller::poll`: the handlers with their `revents_`. -/
def activeQueue (s : PollerSystem) : List (Nat × EventMask) → Option (List (Nat × EventMask))
  | [] => some []
  | (fd, revents) :: ready => do
    let handler ← (s.watched fd).handler
    let queue ← s.activeQueue ready
    return (handler, revents) :: queue

/-- Descriptors that are open are different; `epoll_wait` returns what is registered. -/
def Pre (s : PollerSystem) : PollerAction → Prop
  | .make this fd => s.handlers this = none ∧ ∀ that h, s.handlers that ≠ some (fd, h)
  | .call this _ => s.handlers this ≠ none
  | .removeHandler this => ∃ fd h, s.handlers this = some (fd, h) ∧
      (s.watched fd).handler = some this ∧ h.events = .none
  | .discard this => ∃ fd h, s.handlers this = some (fd, h) ∧ h.state = .new
  | .poll ready => ∀ e ∈ ready, ∃ interest, (s.watched e.1).interest = some interest ∧
      e.2.Reportable interest

def exec (s : PollerSystem) : PollerAction → Option (PollerSystem × List (Nat × EventMask))
  | .make this fd =>
    some ({ s with handlers := Function.update s.handlers this (some (fd, .fresh)) }, [])
  | .call this c => do
    let (fd, h) ← s.handlers this
    let (h, w) ← h.call this (s.watched fd) c
    return (s.set this fd h w, [])
  | .removeHandler this => do
    let (fd, h) ← s.handlers this
    let (h, w) ← h.removeHandler this (s.watched fd)
    return (s.set this fd h w, [])
  | .discard this => some ({ s with handlers := Function.update s.handlers this none }, [])
  | .poll ready => do
    let queue ← s.activeQueue ready
    return (s, queue)

def program : Program PollerSystem PollerAction (List (Nat × EventMask)) where
  pre := Pre
  exec := exec

structure Inv (s : PollerSystem) : Prop where
  agrees : ∀ this fd h, s.handlers this = some (fd, h) → h.Agrees this (s.watched fd)
  distinct : ∀ this that fd h h', s.handlers this = some (fd, h) →
    s.handlers that = some (fd, h') → this = that
  free : ∀ fd, (∀ this h, s.handlers this ≠ some (fd, h)) → s.watched fd = ⟨none, none⟩

namespace Inv
variable {s s' : PollerSystem} {this fd : Nat} {h : Handler}

theorem init : init.Inv where
  agrees _ _ _ h := by cases h
  distinct _ _ _ _ _ h := by cases h
  free _ _ := rfl

/-- A function of one handler does not concern the others: they have other descriptors. -/
theorem set (hs : s.Inv) (hthis : s.handlers this = some (fd, h)) {h' : Handler} {w : Watched}
    (hw : h'.Agrees this w) : (s.set this fd h' w).Inv := by
  have hsame : ∀ that fd' h₁, (s.set this fd h' w).handlers that = some (fd', h₁) →
      that = this ∧ fd' = fd ∧ h₁ = h' ∨
        that ≠ this ∧ fd' ≠ fd ∧ s.handlers that = some (fd', h₁) := by
    intro that fd' h₁ hthat
    simp only [PollerSystem.set, Function.update_apply] at hthat
    split at hthat
    · next heq =>
      cases hthat
      exact .inl ⟨heq, rfl, rfl⟩
    · next hne =>
      refine .inr ⟨hne, ?_, hthat⟩
      rintro rfl
      exact hne (hs.distinct that this fd' h₁ h hthat hthis)
  constructor
  · intro that fd' h₁ hthat
    rcases hsame that fd' h₁ hthat with ⟨rfl, rfl, rfl⟩ | ⟨-, hfd, hthat⟩
    · simpa [PollerSystem.set] using hw
    · simpa [PollerSystem.set, hfd] using hs.agrees that fd' h₁ hthat
  · intro that that' fd' h₁ h₂ hthat hthat'
    rcases hsame that fd' h₁ hthat with ⟨rfl, rfl, -⟩ | ⟨-, hfd, hthat⟩ <;>
      rcases hsame that' _ h₂ hthat' with ⟨rfl, hfd', -⟩ | ⟨-, hfd', hthat'⟩
    · rfl
    · exact absurd rfl hfd'
    · exact absurd hfd' hfd
    · exact hs.distinct that that' fd' h₁ h₂ hthat hthat'
  · intro fd' hfree
    have hne : fd' ≠ fd := by
      rintro rfl
      exact hfree this h' (by simp [PollerSystem.set])
    have hold : ∀ that h₁, s.handlers that ≠ some (fd', h₁) := by
      intro that h₁ hthat
      by_cases heq : that = this
      · subst heq
        cases hthis.symm.trans hthat
        exact hne rfl
      · exact hfree that h₁ (by simpa [PollerSystem.set, heq] using hthat)
    simpa [PollerSystem.set, hne] using hs.free fd' hold

theorem make (hs : s.Inv) (hpre : Pre s (.make this fd)) :
    Inv { s with handlers := Function.update s.handlers this (some (fd, .fresh)) } := by
  obtain ⟨hnone, hfd⟩ := hpre
  have hsame : ∀ that fd' h₁, Function.update s.handlers this (some (fd, .fresh)) that =
      some (fd', h₁) → that = this ∧ fd' = fd ∧ h₁ = .fresh ∨
        fd' ≠ fd ∧ s.handlers that = some (fd', h₁) := by
    intro that fd' h₁ hthat
    rw [Function.update_apply] at hthat
    split at hthat
    · next heq =>
      cases hthat
      exact .inl ⟨heq, rfl, rfl⟩
    · exact .inr ⟨fun heq => hfd that h₁ (heq ▸ hthat), hthat⟩
  constructor
  · intro that fd' h₁ hthat
    rcases hsame that fd' h₁ hthat with ⟨rfl, rfl, rfl⟩ | ⟨-, hthat⟩
    · simp only [hs.free _ hfd]
      exact .fresh that
    · exact hs.agrees that fd' h₁ hthat
  · intro that that' fd' h₁ h₂ hthat hthat'
    rcases hsame that fd' h₁ hthat with ⟨rfl, rfl, -⟩ | ⟨hne, hthat⟩ <;>
      rcases hsame that' _ h₂ hthat' with ⟨rfl, hfd', -⟩ | ⟨hne', hthat'⟩
    · rfl
    · exact absurd rfl hne'
    · exact absurd hfd' hne
    · exact hs.distinct that that' fd' h₁ h₂ hthat hthat'
  · intro fd' hfree
    refine hs.free fd' fun that h₁ hthat => ?_
    by_cases heq : that = this
    · subst heq
      rw [hnone] at hthat
      cases hthat
    · exact hfree that h₁ (by simpa [heq] using hthat)

/-- A handler that is not listed is not watched. -/
theorem discard (hs : s.Inv) (hthis : s.handlers this = some (fd, h)) (hstate : h.state = .new) :
    Inv { s with handlers := Function.update s.handlers this none } := by
  have hsame : ∀ that fd' h₁, Function.update s.handlers this none that = some (fd', h₁) →
      s.handlers that = some (fd', h₁) := by
    intro that fd' h₁ hthat
    rw [Function.update_apply] at hthat
    split at hthat
    · cases hthat
    · exact hthat
  constructor
  · exact fun that fd' h₁ hthat => hs.agrees that fd' h₁ (hsame that fd' h₁ hthat)
  · exact fun that that' fd' h₁ h₂ hthat hthat' =>
      hs.distinct that that' fd' h₁ h₂ (hsame _ _ _ hthat) (hsame _ _ _ hthat')
  · intro fd' hfree
    by_cases hfd : fd' = fd
    · obtain ⟨hlisted, hinterest⟩ := hs.agrees this fd h hthis
      rw [if_pos hstate] at hlisted
      rw [if_neg (by rw [hstate]; nofun)] at hinterest
      rw [hfd, show s.watched fd = ⟨_, _⟩ from rfl, hlisted, hinterest]
    · refine hs.free fd' fun that h₁ hthat => ?_
      by_cases heq : that = this
      · subst heq
        cases hthis.symm.trans hthat
        exact hfd rfl
      · exact hfree that h₁ (by simpa [heq] using hthat)

/-- A descriptor in the epoll set is that of a handler that exists. -/
theorem exists_of_interest (hs : s.Inv) {interest : EventMask}
    (hinterest : (s.watched fd).interest = some interest) :
    ∃ this h, s.handlers this = some (fd, h) ∧ (s.watched fd).handler = some this := by
  by_contra hno
  have hfree : ∀ this h, s.handlers this ≠ some (fd, h) := by
    intro this h hthis
    obtain ⟨hlisted, hint⟩ := hs.agrees this fd h hthis
    refine hno ⟨this, h, hthis, ?_⟩
    rw [hlisted, if_neg]
    intro hstate
    rw [hinterest, if_neg (by rw [hstate]; nofun)] at hint
    cases hint
  rw [hs.free fd hfree] at hinterest
  cases hinterest

theorem activeQueue (hs : s.Inv) {ready : List (Nat × EventMask)} (hpre : Pre s (.poll ready)) :
    ∃ queue, s.activeQueue ready = some queue ∧
      List.Forall₂ (fun e a => a.2 = e.2 ∧ ∃ h, s.handlers a.1 = some (e.1, h)) ready queue := by
  induction ready with
  | nil => exact ⟨[], rfl, .nil⟩
  | cons e ready ih =>
    obtain ⟨⟨interest, hinterest, -⟩, hpre⟩ := List.forall_mem_cons.mp hpre
    obtain ⟨this, h, hthis, hlisted⟩ := hs.exists_of_interest hinterest
    obtain ⟨queue, hqueue, hlive⟩ := ih hpre
    exact ⟨(this, e.2) :: queue, by simp [PollerSystem.activeQueue, hlisted, hqueue],
      .cons ⟨rfl, h, hthis⟩ hlive⟩

/-- No step fails. -/
theorem step (hs : s.Inv) {a : PollerAction} (hpre : Pre s a) :
    ∃ s' o, exec s a = some (s', o) ∧ s'.Inv := by
  cases a with
  | make => exact ⟨_, _, rfl, hs.make hpre⟩
  | call this c =>
    obtain ⟨⟨fd, h⟩, hthis⟩ := Option.ne_none_iff_exists'.mp hpre
    obtain ⟨h', w, hcall, hw, -⟩ := (hs.agrees this fd h hthis).update (c.events h.events)
    have hexec : exec s (.call this c) = some (s.set this fd h' w, []) := by
      simp [exec, hthis, Handler.call, hcall]
    exact ⟨_, _, hexec, hs.set hthis hw⟩
  | removeHandler this =>
    obtain ⟨fd, h, hthis, hlisted, hev⟩ := hpre
    have hagrees := hs.agrees this fd h hthis
    have hstate : h.state ≠ .new := by
      intro hnew
      rw [hagrees.listed, if_pos hnew] at hlisted
      cases hlisted
    obtain ⟨h', w, hremove, hw, -⟩ := hagrees.remove hstate hev
    have hexec : exec s (.removeHandler this) = some (s.set this fd h' w, []) := by
      simp [exec, hthis, hremove]
    exact ⟨_, _, hexec, hs.set hthis hw⟩
  | discard this =>
    obtain ⟨fd, h, hthis, hstate⟩ := hpre
    exact ⟨_, _, rfl, hs.discard hthis hstate⟩
  | poll ready =>
    obtain ⟨queue, hqueue, -⟩ := hs.activeQueue hpre
    exact ⟨s, queue, by simp [exec, hqueue], hs⟩

end Inv

/-- **Agreement.** Whatever handlers there are and whatever they enable, disable and remove: no
assertion of the poller fails, and no call of `epoll_ctl`; each handler, `handlerList_` and the
epoll set agree about its descriptor; a descriptor without a handler is in neither; and `poll` finds
for each descriptor that `epoll_wait` returns a handler that exists. -/
theorem poller_agrees {actions : List PollerAction} (h : program.Admissible .init actions) :
    ∃ s answers, program.run .init actions = some (s, answers) ∧
      (∀ this fd h, s.handlers this = some (fd, h) → h.Agrees this (s.watched fd)) ∧
      (∀ fd, (∀ this h, s.handlers this ≠ some (fd, h)) → s.watched fd = ⟨none, none⟩) ∧
      ∀ ready, program.pre s (.poll ready) → ∃ queue, s.activeQueue ready = some queue ∧
        List.Forall₂ (fun e a => a.2 = e.2 ∧ ∃ h, s.handlers a.1 = some (e.1, h)) ready queue := by
  have hsafe : ∀ s a, Inv s → program.pre s a →
      ∃ s' o, program.exec s a = some (s', o) ∧ Inv s' := fun s a hs hpre => hs.step hpre
  obtain ⟨s, answers, hrun, hs⟩ := Program.run_of_safe hsafe Inv.init h
  exact ⟨s, answers, hrun, hs.agrees, hs.free, fun ready => hs.activeQueue⟩

/-- A descriptor is used again after its handler was removed. -/
def reused : List PollerAction :=
  [.make 1 5, .call 1 .enableReading, .call 1 .disableAll, .removeHandler 1, .discard 1, .make 2 5,
    .call 2 .enableWriting]

theorem poller_agrees_reused : ∃ s answers, program.run .init reused = some (s, answers) ∧
    ∀ this fd h, s.handlers this = some (fd, h) → h.Agrees this (s.watched fd) := by
  have hadm : program.Admissible .init reused :=
    .cons ⟨rfl, fun _ _ h => by cases h⟩ rfl <| .cons nofun rfl <| .cons nofun rfl <|
    .cons ⟨5, _, rfl, rfl, rfl⟩ rfl <| .cons ⟨5, _, rfl, rfl⟩ rfl <|
    .cons ⟨rfl, by simp +contextual [Function.update_apply, init, set]⟩ rfl <|
    .cons nofun rfl trivial
  obtain ⟨s, answers, hrun, hagrees, -⟩ := poller_agrees hadm
  exact ⟨s, answers, hrun, hagrees⟩

end PollerSystem

namespace Handler
variable {this : Nat}

/-- The calls on one handler, each with the handler and the descriptor after it. -/
def calls (this : Nat) : Program (Handler × Watched) HandlerCall (Handler × Watched) where
  pre _ _ := True
  exec s c := (s.1.call this s.2 c).map fun s' => (s', s')

/-- A handler without events is not in the epoll set. -/
def Unwatched (s : Handler × Watched) : Prop := s.1.events = .none → s.2.interest = none

/-- The call does not leave the handler without events when it had none. -/
def Changes (s : Handler × Watched) (c : HandlerCall) : Prop :=
  c.events s.1.events = .none → s.1.events ≠ .none

theorem Agrees.call_eq {h : Handler} {w : Watched} (hw : h.Agrees this w) (c : HandlerCall) :
    h.call this w c = some
      (if h.state = .using_ ∧ c.events h.events = .none then
        (⟨c.events h.events, .deleted⟩, ⟨some this, none⟩)
      else (⟨c.events h.events, .using_⟩, ⟨some this, some (c.events h.events)⟩)) :=
  hw.update_eq _

/-- The handler agrees with its descriptor, and is in use just when it has events. -/
def Tidy (this : Nat) (s : Handler × Watched) : Prop :=
  s.1.Agrees this s.2 ∧ (s.1.state = .using_ ↔ s.1.events ≠ .none)

theorem Tidy.step {s s' o : Handler × Watched} {c : HandlerCall} (hs : Tidy this s)
    (hexec : (calls this).exec s c = some (s', o)) :
    (Unwatched o ↔ Changes s c) ∧ (Unwatched o → Tidy this s') := by
  obtain ⟨hagrees, htidy⟩ := hs
  obtain ⟨s₁, hcall, heq⟩ := Option.map_eq_some_iff.mp hexec
  rw [hagrees.call_eq, Option.some.injEq] at hcall
  cases heq
  split at hcall
  · next hnone =>
    subst hcall
    have hev := htidy.mp hnone.1
    exact ⟨iff_of_true (fun _ => rfl) (fun _ => hev), fun _ => ⟨⟨rfl, rfl⟩, by simp [hnone.2]⟩⟩
  · next hsome =>
    subst hcall
    have hiff : Unwatched (⟨c.events s.1.events, .using_⟩,
        ⟨some this, some (c.events s.1.events)⟩) ↔ c.events s.1.events ≠ .none := by
      simp [Unwatched]
    refine ⟨hiff.trans ⟨fun hne hnone => absurd hnone hne, fun hchanges hnone => ?_⟩,
      fun h => ⟨⟨rfl, rfl⟩, iff_of_true rfl (hiff.mp h)⟩⟩
    exact hsome ⟨htidy.mpr (hchanges hnone), hnone⟩

theorem call_agrees {s : Handler × Watched} (h : s.1.Agrees this s.2) (c : HandlerCall) :
    ∃ s', (calls this).exec s c = some (s', s') ∧ s'.1.Agrees this s'.2 := by
  obtain ⟨h', w, hcall, hw, -⟩ := h.update (c.events s.1.events)
  exact ⟨(h', w), by simp [calls, Handler.call, hcall], hw⟩

/-- `disableAll` takes a handler in use out of the epoll set, and puts any other in. -/
theorem Agrees.disableAll_eq {h : Handler} {w : Watched} (hw : h.Agrees this w) :
    h.call this w .disableAll = some
      (if h.state = .using_ then (⟨.none, .deleted⟩, ⟨some this, none⟩)
      else (⟨.none, .using_⟩, ⟨some this, some .none⟩)) := by
  rw [hw.call_eq]
  simp [HandlerCall.events]

/-- **Watching.** However a handler's events are enabled and disabled: after all calls that leave it
without events its descriptor is out of the epoll set, exactly when none of these was made without
events already. Repeating `disableAll` always changes the state and the epoll set. -/
theorem unwatched_iff (this : Nat) (cs : List HandlerCall) :
    ∃ s states, (calls this).run (.fresh, ⟨none, none⟩) cs = some (s, states) ∧
      ((∀ o ∈ states, Unwatched o) ↔
        ((calls this).restrict Changes).Admissible (.fresh, ⟨none, none⟩) cs) ∧
      ∀ s₁ s₂, s.1.call this s.2 .disableAll = some s₁ →
        s₁.1.call this s₁.2 .disableAll = some s₂ →
          s₂.1.state ≠ s₁.1.state ∧ s₂.2.interest ≠ s₁.2.interest := by
  have hadm : (calls this).Admissible (.fresh, ⟨none, none⟩) cs := .of_forall fun _ _ => trivial
  obtain ⟨s, states, hrun, hs⟩ := Program.run_of_safe (I := fun s => s.1.Agrees this s.2)
    (fun s c h _ => (call_agrees h c).imp fun s' hs' => ⟨s', hs'⟩) (.fresh this) hadm
  refine ⟨s, states, hrun, Program.forall_answers_iff_while (I := Tidy this)
    (fun s c s' o hs _ hexec => hs.step hexec) ⟨.fresh this, by simp [fresh]⟩ hadm hrun, ?_⟩
  intro s₁ s₂ h₁ h₂
  rw [hs.disableAll_eq, Option.some.injEq] at h₁
  split at h₁
  · subst h₁
    rw [Agrees.disableAll_eq ⟨rfl, rfl⟩] at h₂
    cases h₂
    simp
  · subst h₁
    rw [Agrees.disableAll_eq ⟨rfl, rfl⟩] at h₂
    cases h₂
    simp

/-- The descriptor of a handler that `disableAll` was called on twice is in the epoll set, and a
hang-up is reported for it. -/
theorem disableAll_twice : ∃ s states,
    (calls 1).run (.fresh, ⟨none, none⟩) [.enableReading, .disableAll, .disableAll] =
      some (s, states) ∧
    s.1.events = .none ∧ ∃ interest, s.2.interest = some interest ∧
      EventMask.Reportable ⟨false, false, false, false, true⟩ interest :=
  ⟨_, _, rfl, rfl, _, rfl, nofun, nofun, nofun⟩

end Handler
end Httpancake
