import Httpancake.Lib.Program
import Mathlib.Logic.Function.Basic

/-! # Threads and their event loops

Threads run functions, one operation at a time and in any order. A loop belongs to one thread; any
thread may hand it a function, which the loop's thread calls when it gets there. What the functions
do is a parameter, `LoopSystem.Course`: it lists the ways in which a call can go.

Each datum belongs to a loop. `LoopSystem.Confined` is a discipline on the text of the functions:
each is at home on one loop or on none, uses only data of its own loop, calls only what is at home
there, and hands everything else over. `LoopSystem.Confined.accesses` says what it is good for: in
every run, every access to a datum is on the thread of the datum's loop. -/

namespace Httpancake

/-- What a function can do next, for loops `L`, functions `F` and data `R`. -/
inductive LoopOp (L F R : Type*) where
  | access (r : R)
  | call (f : F)
  | runInLoop (lp : L) (f : F)
  | queueInLoop (lp : L) (f : F)
  /-- From now on the loop may report `f`. -/
  | watch (lp : L) (f : F)
  | unwatch (lp : L) (f : F)
  /-- The loop reports some of what it watches, and these are called. -/
  | poll (lp : L)
  /-- What is queued is taken and called. -/
  | doPendingFuncs (lp : L)
  /-- The process ends. -/
  | exit

namespace LoopOp
variable {L F R : Type*}

/-- `f` may be called where loops are at hand that are `On`. -/
def Callable (home : F → Option L) (On : L → Prop) (f : F) : Prop := ∀ lp ∈ home f, On lp

/-- The operation respects where data and functions are at home, in code that has the loops `On`
at hand. -/
def Allowed (loopOf : R → L) (home : F → Option L) (On : L → Prop) :
    LoopOp L F R → Prop
  | .access r => On (loopOf r)
  | .call f => Callable home On f
  | .runInLoop lp f | .queueInLoop lp f | .watch lp f => Callable home (· = lp) f
  | .poll lp | .doPendingFuncs lp => On lp
  | .unwatch _ _ | .exit => True

variable {loopOf : R → L} {home : F → Option L} {On On' : L → Prop}

theorem Callable.mono {f : F} (h : Callable home On f) (himp : ∀ lp, On lp → On' lp) :
    Callable home On' f := fun lp hlp => himp lp (h lp hlp)

/-- A function without a home may be called everywhere. -/
theorem Callable.of_none {f : F} (h : home f = none) : Callable home On f := by
  intro lp hlp
  rw [h] at hlp
  cases hlp

theorem Allowed.mono {op : LoopOp L F R} (h : op.Allowed loopOf home On)
    (himp : ∀ lp, On lp → On' lp) : op.Allowed loopOf home On' := by
  cases op with
  | access r => exact himp _ h
  | call f => exact Callable.mono h himp
  | poll lp | doPendingFuncs lp => exact himp lp h
  | runInLoop | queueInLoop | watch | unwatch | exit => exact h

/-- All operations are allowed in a function that is at home on `h`. -/
def Keeps (loopOf : R → L) (home : F → Option L) (h : Option L) (ops : List (LoopOp L F R)) :
    Prop :=
  ∀ op ∈ ops, op.Allowed loopOf home (h = some ·)

section Keeps
variable {h : Option L} {op : LoopOp L F R} {ops ops' : List (LoopOp L F R)}

@[simp] theorem Keeps.nil : Keeps loopOf home h ([] : List (LoopOp L F R)) := nofun

@[simp] theorem Keeps.cons_iff : Keeps loopOf home h (op :: ops) ↔
    op.Allowed loopOf home (h = some ·) ∧ Keeps loopOf home h ops := List.forall_mem_cons

@[simp] theorem Keeps.append_iff :
    Keeps loopOf home h (ops ++ ops') ↔ Keeps loopOf home h ops ∧ Keeps loopOf home h ops' :=
  List.forall_mem_append

theorem Keeps.map {α : Type*} {f : α → LoopOp L F R} (as : List α)
    (hf : ∀ a, (f a).Allowed loopOf home (h = some ·)) : Keeps loopOf home h (as.map f) := by
  induction as with
  | nil => exact .nil
  | cons a as ih => exact Keeps.cons_iff.mpr ⟨hf a, ih⟩

theorem Keeps.flatMap {α : Type*} {f : α → List (LoopOp L F R)} (as : List α)
    (hf : ∀ a, Keeps loopOf home h (f a)) : Keeps loopOf home h (as.flatMap f) := by
  induction as with
  | nil => exact .nil
  | cons a as ih => exact Keeps.append_iff.mpr ⟨hf a, ih⟩

end Keeps
end LoopOp

structure LoopSystem (T L F R : Type*) where
  tid : L → T
  loopOf : R → L
  /-- The ways in which a call can go. -/
  Course : F → List (LoopOp L F R) → Prop
  /-- What a thread may call that has nothing else to do. -/
  Entry : T → F → Prop
  /-- What the loops watch at first. -/
  handlers : L → List F

structure LoopState (T L F R : Type*) where
  /-- The rest of what each thread is doing. -/
  todo : T → List (LoopOp L F R)
  pendingFuncs : L → List F
  handlers : L → List F

inductive LoopStep (T L F R : Type*) where
  | enter (t : T) (f : F)
  /-- The next operation of `t`; `ops` is what a call or a report makes of it. -/
  | next (t : T) (ops : List (LoopOp L F R))

namespace LoopState
variable {T L F R : Type*}

def setTodo [DecidableEq T] (s : LoopState T L F R) (t : T) (todo : List (LoopOp L F R)) :
    LoopState T L F R :=
  { s with todo := Function.update s.todo t todo }

def setPending [DecidableEq L] (s : LoopState T L F R) (lp : L) (fs : List F) :
    LoopState T L F R :=
  { s with pendingFuncs := Function.update s.pendingFuncs lp fs }

def setHandlers [DecidableEq L] (s : LoopState T L F R) (lp : L) (fs : List F) :
    LoopState T L F R :=
  { s with handlers := Function.update s.handlers lp fs }

def queueInLoop [DecidableEq L] (s : LoopState T L F R) (lp : L) (f : F) : LoopState T L F R :=
  s.setPending lp (s.pendingFuncs lp ++ [f])

end LoopState

namespace LoopSystem
open LoopOp
variable {T L F R : Type*}

def init (S : LoopSystem T L F R) : LoopState T L F R where
  todo _ := []
  pendingFuncs _ := []
  handlers := S.handlers

/-- What a call or a report can turn into. -/
def Answers (S : LoopSystem T L F R) (s : LoopState T L F R) (ops : List (LoopOp L F R)) :
    LoopOp L F R → Prop
  | .call f => S.Course f ops
  | .poll lp => ∃ active, active ⊆ s.handlers lp ∧ ops = active.map .call
  | _ => True

/-! ## The discipline -/

/-- Every function keeps to its home. -/
structure Confined (S : LoopSystem T L F R) (home : F → Option L) : Prop where
  entry : ∀ t f, S.Entry t f → Callable home (S.tid · = t) f
  course : ∀ f ops, S.Course f ops → Keeps S.loopOf home (home f) ops
  handlers : ∀ lp, ∀ f ∈ S.handlers lp, Callable home (· = lp) f

variable {S : LoopSystem T L F R} {home : F → Option L}

/-- What a function does on a thread where it may be called. -/
theorem Confined.on_thread (hS : S.Confined home) {t : T} {f : F} {ops : List (LoopOp L F R)}
    (hf : Callable home (S.tid · = t) f) (hcourse : S.Course f ops) :
    ∀ op ∈ ops, op.Allowed S.loopOf home (S.tid · = t) := by
  intro op hop
  exact (hS.course f ops hcourse op hop).mono hf

/-- The functions of a loop may be called on its thread. -/
theorem allowed_map_call {t : T} {lp : L} {fs : List F} (hlp : S.tid lp = t)
    (hfs : ∀ f ∈ fs, Callable home (· = lp) f) :
    ∀ op ∈ fs.map LoopOp.call, op.Allowed S.loopOf home (S.tid · = t) := by
  intro op hop
  obtain ⟨f, hf, rfl⟩ := List.mem_map.mp hop
  exact Callable.mono (hfs f hf) fun lp' heq => heq ▸ hlp

/-- What the threads have left to do is allowed there, and the loops have only functions that are
at home there. -/
structure Homed (S : LoopSystem T L F R) (home : F → Option L) (s : LoopState T L F R) : Prop where
  todo : ∀ t, ∀ op ∈ s.todo t, op.Allowed S.loopOf home (S.tid · = t)
  pendingFuncs : ∀ lp, ∀ f ∈ s.pendingFuncs lp, Callable home (· = lp) f
  handlers : ∀ lp, ∀ f ∈ s.handlers lp, Callable home (· = lp) f

namespace Homed
variable {s : LoopState T L F R}

theorem init (hS : S.Confined home) : S.Homed home S.init where
  todo _ := nofun
  pendingFuncs _ := nofun
  handlers := hS.handlers

theorem setTodo [DecidableEq T] (h : S.Homed home s) {t : T} {todo : List (LoopOp L F R)}
    (htodo : ∀ op ∈ todo, op.Allowed S.loopOf home (S.tid · = t)) :
    S.Homed home (s.setTodo t todo) where
  todo := by
    apply (Function.forall_update_iff s.todo fun t todo =>
      ∀ op ∈ todo, op.Allowed S.loopOf home (S.tid · = t)).mpr
    exact ⟨htodo, fun t' _ => h.todo t'⟩
  pendingFuncs := h.pendingFuncs
  handlers := h.handlers

theorem setPending [DecidableEq L] (h : S.Homed home s) {lp : L} {fs : List F}
    (hfs : ∀ f ∈ fs, Callable home (· = lp) f) : S.Homed home (s.setPending lp fs) where
  todo := h.todo
  pendingFuncs := by
    apply (Function.forall_update_iff s.pendingFuncs fun lp fs =>
      ∀ f ∈ fs, Callable home (· = lp) f).mpr
    exact ⟨hfs, fun lp' _ => h.pendingFuncs lp'⟩
  handlers := h.handlers

theorem setHandlers [DecidableEq L] (h : S.Homed home s) {lp : L} {fs : List F}
    (hfs : ∀ f ∈ fs, Callable home (· = lp) f) : S.Homed home (s.setHandlers lp fs) where
  todo := h.todo
  pendingFuncs := h.pendingFuncs
  handlers := by
    apply (Function.forall_update_iff s.handlers fun lp fs =>
      ∀ f ∈ fs, Callable home (· = lp) f).mpr
    exact ⟨hfs, fun lp' _ => h.handlers lp'⟩

theorem queueInLoop [DecidableEq L] (h : S.Homed home s) {lp : L} {f : F}
    (hf : Callable home (· = lp) f) : S.Homed home (s.queueInLoop lp f) := by
  apply h.setPending
  intro g hg
  rcases List.mem_append.mp hg with hg | hg
  · exact h.pendingFuncs lp g hg
  · exact List.mem_singleton.mp hg ▸ hf

end Homed

/-! ## Runs -/

section Runs
variable [DecidableEq T] [DecidableEq L] [DecidableEq F]

/-- The operation of the thread `t` with `todo` behind it. -/
def perform (S : LoopSystem T L F R) (s : LoopState T L F R) (t : T)
    (ops todo : List (LoopOp L F R)) :
    LoopOp L F R → Option (LoopState T L F R × List (T × R))
  | .access r => some (s.setTodo t todo, [(t, r)])
  | .call _ | .poll _ => some (s.setTodo t (ops ++ todo), [])
  | .runInLoop lp f =>
    if S.tid lp = t then some (s.setTodo t (.call f :: todo), [])
    else some ((s.queueInLoop lp f).setTodo t todo, [])
  | .queueInLoop lp f => some ((s.queueInLoop lp f).setTodo t todo, [])
  | .watch lp f => some ((s.setHandlers lp ((s.handlers lp).insert f)).setTodo t todo, [])
  | .unwatch lp f => some ((s.setHandlers lp ((s.handlers lp).erase f)).setTodo t todo, [])
  | .doPendingFuncs lp =>
    some ((s.setPending lp []).setTodo t ((s.pendingFuncs lp).map .call ++ todo), [])
  | .exit => none

def exec (S : LoopSystem T L F R) (s : LoopState T L F R) :
    LoopStep T L F R → Option (LoopState T L F R × List (T × R))
  | .enter t f => some (s.setTodo t [.call f], [])
  | .next t ops =>
    match s.todo t with
    | [] => none
    | op :: todo => S.perform s t ops todo op

/-- All threads. An answer lists the data that the step accesses, with the thread. -/
def program (S : LoopSystem T L F R) :
    Program (LoopState T L F R) (LoopStep T L F R) (List (T × R)) where
  pre s
    | .enter t f => s.todo t = [] ∧ S.Entry t f
    | .next t ops => ∃ op ∈ (s.todo t).head?, S.Answers s ops op
  exec := S.exec

variable {s s' : LoopState T L F R}

/-- One operation, by cases on what it is. -/
theorem Homed.perform (hS : S.Confined home) (h : S.Homed home s) {t : T} {op : LoopOp L F R}
    {ops todo : List (LoopOp L F R)} {as : List (T × R)} (htodo : s.todo t = op :: todo)
    (hops : S.Answers s ops op) (hexec : S.perform s t ops todo op = some (s', as)) :
    S.Homed home s' ∧ ∀ a ∈ as, a.1 = S.tid (S.loopOf a.2) := by
  have hall := h.todo t
  rw [htodo] at hall
  obtain ⟨hop, hrest⟩ := List.forall_mem_cons.mp hall
  cases op with
  | access r =>
    cases hexec
    refine ⟨h.setTodo hrest, fun a ha => ?_⟩
    obtain rfl := List.mem_singleton.mp ha
    exact hop.symm
  | call f =>
    cases hexec
    exact ⟨h.setTodo (List.forall_mem_append.mpr ⟨hS.on_thread hop hops, hrest⟩), nofun⟩
  | poll lp =>
    cases hexec
    obtain ⟨active, hactive, rfl⟩ := hops
    have hcalls := allowed_map_call hop fun f hf => h.handlers lp f (hactive hf)
    exact ⟨h.setTodo (List.forall_mem_append.mpr ⟨hcalls, hrest⟩), nofun⟩
  | runInLoop lp f =>
    simp only [LoopSystem.perform] at hexec
    split at hexec
    · rename_i htid
      cases hexec
      have hcall := allowed_map_call htid (List.forall_mem_singleton.mpr hop)
      exact ⟨h.setTodo (List.forall_mem_append.mpr ⟨hcall, hrest⟩), nofun⟩
    · cases hexec
      exact ⟨(h.queueInLoop hop).setTodo hrest, nofun⟩
  | queueInLoop lp f =>
    cases hexec
    exact ⟨(h.queueInLoop hop).setTodo hrest, nofun⟩
  | watch lp f =>
    cases hexec
    have hfs : ∀ g ∈ (s.handlers lp).insert f, Callable home (· = lp) g := by
      intro g hg
      rcases List.mem_insert_iff.mp hg with rfl | hg
      · exact hop
      · exact h.handlers lp g hg
    exact ⟨(h.setHandlers hfs).setTodo hrest, nofun⟩
  | unwatch lp f =>
    cases hexec
    have hfs : ∀ g ∈ (s.handlers lp).erase f, Callable home (· = lp) g :=
      fun g hg => h.handlers lp g (List.mem_of_mem_erase hg)
    exact ⟨(h.setHandlers hfs).setTodo hrest, nofun⟩
  | doPendingFuncs lp =>
    cases hexec
    have hcalls := allowed_map_call hop (h.pendingFuncs lp)
    have hnone : S.Homed home (s.setPending lp []) := h.setPending fun f hf => nomatch hf
    exact ⟨hnone.setTodo (List.forall_mem_append.mpr ⟨hcalls, hrest⟩), nofun⟩
  | exit => cases hexec

/-- One step of a thread. -/
theorem Homed.exec (hS : S.Confined home) (h : S.Homed home s) {a : LoopStep T L F R}
    {as : List (T × R)} (hpre : S.program.pre s a) (hexec : S.exec s a = some (s', as)) :
    S.Homed home s' ∧ ∀ a ∈ as, a.1 = S.tid (S.loopOf a.2) := by
  cases a with
  | enter t f =>
    cases hexec
    exact ⟨h.setTodo (List.forall_mem_singleton.mpr (hS.entry t f hpre.2)), nofun⟩
  | next t ops =>
    obtain ⟨op, hhead, hops⟩ := hpre
    obtain ⟨todo, htodo⟩ := List.head?_eq_some_iff.mp hhead
    rw [LoopSystem.exec, htodo] at hexec
    exact h.perform hS htodo hops hexec

/-- **Confinement.** If every function keeps to its home, then in every run every access to a datum
is on the thread of the datum's loop. -/
theorem Confined.accesses (hS : S.Confined home) {as : List (LoopStep T L F R)}
    {answers : List (List (T × R))} (hadm : S.program.Admissible S.init as)
    (hrun : S.program.run S.init as = some (s, answers)) :
    ∀ accesses ∈ answers, ∀ a ∈ accesses, a.1 = S.tid (S.loopOf a.2) := by
  refine Program.forall_answers (I := S.Homed home) ?_ (.init hS) hadm hrun
  intro s a s' accesses h hpre hexec
  exact h.exec hS hpre hexec

end Runs
end LoopSystem
end Httpancake
