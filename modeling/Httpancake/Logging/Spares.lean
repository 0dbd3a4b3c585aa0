import Httpancake.Logging.NonBlockingLog

/-! # The spare buffers of the log thread

`writeBack` refills both spares from the last written buffer. The first one takes it, so a second
spare that was handed over is not regained: the log thread keeps both exactly until `nextBuffer_`
is used up at a hand-over (`NonBlockingLog.keeps_spares_iff`). -/

namespace Httpancake

open Bytes

/-- The addresses of the buffers, beside the buffers themselves. `fresh` is the address of the next
`new LargeFixBuffer`. -/
structure LogPointers where
  buffers : List (Option Nat)
  nowBuffer : Option Nat
  nextBuffer : Option Nat
  newBuffer1 : Option Nat
  newBuffer2 : Option Nat
  writeBackBuffers : List (Option Nat)
  fresh : Nat

namespace LogPointers

def init : LogPointers where
  buffers := []
  nowBuffer := some 0
  nextBuffer := some 1
  newBuffer1 := some 2
  newBuffer2 := some 3
  writeBackBuffers := []
  fresh := 4

/-- `append` to a buffer that is too full. -/
def rotate (p : LogPointers) : LogPointers :=
  { p with
    buffers := p.buffers ++ [p.nowBuffer]
    nowBuffer := p.nextBuffer.or (some p.fresh)
    nextBuffer := none
    fresh := if p.nextBuffer.isSome then p.fresh else p.fresh + 1 }

def handOver (p : LogPointers) : LogPointers :=
  { p with
    writeBackBuffers := p.buffers ++ [p.nowBuffer]
    buffers := p.writeBackBuffers
    nowBuffer := p.newBuffer1
    newBuffer1 := none
    nextBuffer := p.nextBuffer.or p.newBuffer2
    newBuffer2 := if p.nextBuffer.isSome then p.newBuffer2 else none }

def refill (buffer : Option Nat) (bs : List (Option Nat)) : Option Nat × List (Option Nat) :=
  if buffer.isSome then (buffer, bs) else (bs.getLast?.join, bs.dropLast ++ [none])

def writeBack (p : LogPointers) : LogPointers :=
  let (newBuffer1, bs) := refill p.newBuffer1 (p.writeBackBuffers.take 2)
  let (newBuffer2, _) := refill p.newBuffer2 bs
  { p with newBuffer1, newBuffer2, writeBackBuffers := [] }

def drain (p : LogPointers) : LogPointers :=
  { p with
    writeBackBuffers := p.buffers ++ [p.nowBuffer]
    buffers := p.writeBackBuffers
    nowBuffer := none }

/-- What an action of the log does to the addresses. -/
def follow (p : LogPointers) (s : NonBlockingLog) : LogAction → LogPointers
  | .append msg => if s.nowBuffer.any (fun now => msg.length < now.free) then p else p.rotate
  | .stop => p
  | .thread =>
    match s.thread with
    | .loop | .done => p
    | .handOver => p.handOver
    | .writeBack => p.writeBack
    | .drain => p.drain

/-! ## No two pointers to one buffer -/

def owned (p : LogPointers) : List (Option Nat) :=
  p.buffers ++ [p.nowBuffer, p.nextBuffer, p.newBuffer1, p.newBuffer2] ++ p.writeBackBuffers

/-- How many pointers own the buffer at `a`. -/
def holders (p : LogPointers) (a : Nat) : Nat := p.owned.count (some a)

/-- Every buffer has one owner at most, and those to come have none. -/
structure Unique (p : LogPointers) : Prop where
  one : ∀ a, p.holders a ≤ 1
  unborn : ∀ a, p.fresh ≤ a → p.holders a = 0

theorem holders_eq (p : LogPointers) (a : Nat) :
    p.holders a = p.buffers.count (some a) + [p.nowBuffer].count (some a) +
      [p.nextBuffer].count (some a) + [p.newBuffer1].count (some a) +
      [p.newBuffer2].count (some a) + p.writeBackBuffers.count (some a) := by
  simp only [holders, owned, List.count_append, List.count_cons, List.count_nil]
  omega

variable {p p' : LogPointers}

theorem Unique.of_le (h : Unique p) (hle : ∀ a, p'.holders a ≤ p.holders a)
    (hfresh : p'.fresh = p.fresh) : Unique p' where
  one a := (hle a).trans (h.one a)
  unborn a ha := Nat.le_zero.mp ((hle a).trans_eq (h.unborn a (hfresh ▸ ha)))

theorem init_unique : Unique init where
  one a := by
    simp only [holders_eq, init, List.count_nil, List.count_singleton]
    grind
  unborn a ha := by
    simp only [holders_eq, init, List.count_nil, List.count_singleton] at ha ⊢
    grind

/-- The buffer that is made is the only one at its address. -/
theorem Unique.rotate (h : Unique p) : Unique p.rotate := by
  cases hnext : p.nextBuffer with
  | some n =>
    have hfresh : p.rotate.fresh = p.fresh := by
      simp only [LogPointers.rotate, hnext, Option.isSome_some, if_true]
    refine h.of_le (fun a => ?_) hfresh
    simp only [holders_eq, LogPointers.rotate, hnext, Option.some_or, List.count_append,
      List.count_singleton]
    grind
  | none =>
    have hholders (a : Nat) : p.rotate.holders a = p.holders a + [p.fresh].count a := by
      simp only [holders_eq, LogPointers.rotate, hnext, Option.none_or, List.count_append,
        List.count_singleton]
      grind
    have hfresh : p.rotate.fresh = p.fresh + 1 := by
      simp only [LogPointers.rotate, hnext, Option.isSome_none, Bool.false_eq_true, if_false]
    refine ⟨fun a => ?_, fun a ha => ?_⟩
    · have hone := h.one a
      have hunborn := h.unborn a
      rw [hholders, List.count_singleton]
      grind
    · have hunborn := h.unborn a
      rw [hholders, List.count_singleton]
      grind

theorem Unique.handOver (h : Unique p) : Unique p.handOver := by
  refine h.of_le (fun a => ?_) rfl
  simp only [holders_eq, LogPointers.handOver, List.count_append, List.count_singleton]
  cases p.nextBuffer <;> grind

theorem Unique.drain (h : Unique p) : Unique p.drain := by
  refine h.of_le (fun a => ?_) rfl
  simp only [holders_eq, LogPointers.drain, List.count_append, List.count_singleton]
  grind

/-- Releasing a pointer and resetting another does not make an owner. -/
theorem count_refill (buffer : Option Nat) (bs : List (Option Nat)) (a : Nat) :
    [(refill buffer bs).1].count (some a) + (refill buffer bs).2.count (some a) ≤
      [buffer].count (some a) + bs.count (some a) := by
  rw [refill]
  split
  · exact Nat.le_refl _
  · cases bs using List.reverseRecOn with
    | nil => simp
    | append_singleton bs b => simp [List.count_append, List.count_singleton]; omega

theorem Unique.writeBack (h : Unique p) : Unique p.writeBack := by
  refine h.of_le (fun a => ?_) rfl
  have htake : (p.writeBackBuffers.take 2).count (some a) ≤ p.writeBackBuffers.count (some a) :=
    (List.take_sublist _ _).count_le _
  have hfirst := count_refill p.newBuffer1 (p.writeBackBuffers.take 2) a
  have hsecond := count_refill p.newBuffer2
    (refill p.newBuffer1 (p.writeBackBuffers.take 2)).2 a
  simp only [holders_eq, LogPointers.writeBack, List.count_nil]
  omega

end LogPointers

namespace NonBlockingLog

/-- A pointer has an address exactly when it has a buffer. -/
structure Points (s : NonBlockingLog) (p : LogPointers) : Prop where
  buffers : p.buffers.map Option.isSome = s.buffers.map Option.isSome
  nowBuffer : p.nowBuffer.isSome = s.nowBuffer.isSome
  nextBuffer : p.nextBuffer.isSome = s.nextBuffer.isSome
  newBuffer1 : p.newBuffer1.isSome = s.newBuffer1.isSome
  newBuffer2 : p.newBuffer2.isSome = s.newBuffer2.isSome
  writeBackBuffers : p.writeBackBuffers.map Option.isSome = s.writeBackBuffers.map Option.isSome

variable {s s' : NonBlockingLog} {p : LogPointers}

/-- An append stores into the current buffer, or makes another one current. -/
theorem append_cases {msg : Bytes} (h : s.append msg = some s') :
    ∃ now b, s.nowBuffer = some now ∧
      (msg.length < now.free ∧ s' = { s with nowBuffer := some b } ∨
        ¬ msg.length < now.free ∧ s' = { s with
          buffers := s.buffers ++ [some now], nowBuffer := some b, nextBuffer := none }) := by
  rw [append] at h
  cases hnow : s.nowBuffer with
  | none => simp [hnow] at h
  | some now =>
    simp only [hnow] at h
    by_cases hfree : msg.length < now.free
    · rw [if_pos hfree] at h
      obtain ⟨b, -, rfl⟩ := Option.map_eq_some_iff.mp h
      exact ⟨now, b, rfl, .inl ⟨hfree, rfl⟩⟩
    · rw [if_neg hfree] at h
      obtain ⟨b, -, rfl⟩ := Option.map_eq_some_iff.mp h
      exact ⟨now, b, rfl, .inr ⟨hfree, rfl⟩⟩

theorem Points.append (h : Points s p) {msg : Bytes} (happ : s.append msg = some s') :
    Points s' (p.follow s (.append msg)) := by
  obtain ⟨now, b, hnow, ⟨hfree, rfl⟩ | ⟨hfree, rfl⟩⟩ := append_cases happ
  · rw [LogPointers.follow, hnow, Option.any_some, if_pos (decide_eq_true hfree)]
    exact { h with nowBuffer := h.nowBuffer.trans (by rw [hnow]; rfl) }
  · rw [LogPointers.follow, hnow, Option.any_some, if_neg (by simpa using hfree)]
    refine { h with buffers := ?_, nowBuffer := ?_, nextBuffer := rfl }
    · simp only [LogPointers.rotate, List.map_append, h.buffers, List.map_cons, List.map_nil,
        h.nowBuffer, hnow]
    · simp only [LogPointers.rotate]
      cases p.nextBuffer <;> rfl

theorem Points.handOver (h : Points s p) : Points s.handOver p.handOver where
  buffers := h.writeBackBuffers
  nowBuffer := h.newBuffer1
  nextBuffer := by
    simp only [LogPointers.handOver, NonBlockingLog.handOver, Option.isSome_or, h.nextBuffer,
      h.newBuffer2]
  newBuffer1 := rfl
  newBuffer2 := by
    simp only [LogPointers.handOver, NonBlockingLog.handOver, h.nextBuffer]
    split
    · exact h.newBuffer2
    · rfl
  writeBackBuffers := by
    simp only [LogPointers.handOver, NonBlockingLog.handOver, List.map_append, h.buffers,
      List.map_cons, List.map_nil, h.nowBuffer]

theorem writeAll_isSome {bs bs' : List (Option LargeFixBuffer)} {text : Bytes}
    (h : writeAll bs = some (bs', text)) : bs'.map Option.isSome = bs.map Option.isSome := by
  induction bs generalizing bs' text with
  | nil =>
    cases h
    rfl
  | cons b bs ih =>
    cases b with
    | none => cases h
    | some b =>
      obtain ⟨⟨bs₁, text₁⟩, htail, heq⟩ := Option.map_eq_some_iff.mp h
      cases heq
      rw [List.map_cons, List.map_cons, ih htail]
      rfl

theorem refill_isSome {buffer buffer' : Option LargeFixBuffer}
    {bs bs' : List (Option LargeFixBuffer)} {q : Option Nat} {ps : List (Option Nat)}
    (hbuffer : q.isSome = buffer.isSome) (hbs : ps.map Option.isSome = bs.map Option.isSome)
    (h : refill buffer bs = some (buffer', bs')) :
    (LogPointers.refill q ps).1.isSome = buffer'.isSome ∧
      (LogPointers.refill q ps).2.map Option.isSome = bs'.map Option.isSome := by
  rw [refill] at h
  rw [LogPointers.refill, hbuffer]
  split at h
  · next hsome =>
    cases h
    rw [if_pos hsome]
    exact ⟨hbuffer, hbs⟩
  · next hnone =>
    rw [if_neg hnone]
    obtain ⟨b, hlast, heq⟩ := Option.map_eq_some_iff.mp h
    cases heq
    have hlast' : ps.getLast?.map Option.isSome = some buffer'.isSome := by
      rw [← List.getLast?_map, hbs, List.getLast?_map, hlast]
      rfl
    obtain ⟨q', hq', hsome⟩ := Option.map_eq_some_iff.mp hlast'
    refine ⟨by rw [hq']; exact hsome, ?_⟩
    rw [List.map_append, List.map_append, List.map_dropLast, List.map_dropLast, hbs]
    rfl

/-- What the end of an iteration does. -/
theorem writeBack_cases (h : s.writeBack = some s') :
    ∃ bs text p₁ bs₁ p₂ bs₂, writeAll s.writeBackBuffers = some (bs, text) ∧
      refill s.newBuffer1 (bs.take 2) = some (p₁, bs₁) ∧
      refill s.newBuffer2 bs₁ = some (p₂, bs₂) ∧
      s' = { s with
        logFile := s.logFile ++ text
        newBuffer1 := p₁
        newBuffer2 := p₂
        writeBackBuffers := []
        thread := .loop } := by
  simp only [writeBack, Option.bind_eq_bind, Option.bind_eq_some_iff, Option.pure_def] at h
  obtain ⟨⟨bs, text⟩, hwrite, ⟨p₁, bs₁⟩, hfirst, ⟨p₂, bs₂⟩, hsecond, heq⟩ := h
  exact ⟨bs, text, p₁, bs₁, p₂, bs₂, hwrite, hfirst, hsecond, (Option.some.inj heq).symm⟩

theorem Points.writeBack (h : Points s p) (hwb : s.writeBack = some s') :
    Points s' p.writeBack := by
  obtain ⟨bs, text, p₁, bs₁, p₂, bs₂, hwrite, hfirst, hsecond, rfl⟩ := writeBack_cases hwb
  have htake : (p.writeBackBuffers.take 2).map Option.isSome = (bs.take 2).map Option.isSome := by
    rw [List.map_take, List.map_take, h.writeBackBuffers, writeAll_isSome hwrite]
  obtain ⟨hp₁, hbs₁⟩ := refill_isSome h.newBuffer1 htake hfirst
  obtain ⟨hp₂, -⟩ := refill_isSome h.newBuffer2 hbs₁ hsecond
  exact { h with newBuffer1 := hp₁, newBuffer2 := hp₂, writeBackBuffers := rfl }

theorem Points.drain (h : Points s p) (hdrain : s.drain = some s') : Points s' p.drain := by
  obtain ⟨⟨bs, text⟩, hwrite, rfl⟩ := Option.map_eq_some_iff.mp hdrain
  refine { h with buffers := h.writeBackBuffers, nowBuffer := rfl, writeBackBuffers := ?_ }
  simp only [LogPointers.drain, writeAll_isSome hwrite, List.map_append, h.buffers, List.map_cons,
    List.map_nil, h.nowBuffer]

end NonBlockingLog

/-- The log together with the addresses of its buffers. -/
def addressedLog : Program (NonBlockingLog × LogPointers) LogAction Unit where
  pre s a := nonBlockingLog.pre s.1 a
  exec s a := (nonBlockingLog.exec s.1 a).map fun r => ((r.1, s.2.follow s.1 a), r.2)

namespace NonBlockingLog

/-- What holds between the steps of the log with its addresses. -/
structure Addressed (s : NonBlockingLog × LogPointers) : Prop where
  sound : Sound s.1
  points : Points s.1 s.2
  unique : s.2.Unique
  taken : s.1.thread = .writeBack → s.1.newBuffer1 = none

/-- The hand-over finds `nextBuffer_` in place. -/
def NextLeft (s : NonBlockingLog × LogPointers) (a : LogAction) : Prop :=
  a = .thread → s.1.thread = .handOver → s.1.nextBuffer.isSome

/-- Both spares are there, empty and distinct, and they will do at the next hand-over. -/
structure KeepsSpares (s : NonBlockingLog × LogPointers) : Prop where
  first : ∃ b, s.1.newBuffer1 = some b ∧ b.Holds []
  second : ∃ b, s.1.newBuffer2 = some b ∧ b.Holds []
  distinct : ∃ i j, s.2.newBuffer1 = some i ∧ s.2.newBuffer2 = some j ∧ i ≠ j
  refills : ∀ before behind s' os, (∀ a ∈ before ++ behind, a ≠ .thread) →
    addressedLog.run s (before ++ .thread :: behind) = some (s', os) → s'.1.thread = .handOver →
      s'.1.handOver.nowBuffer.isSome ∧ s'.1.handOver.nextBuffer.isSome

section
variable {s s' : NonBlockingLog × LogPointers} {a : LogAction} {o : Unit}

theorem exec_addressed (h : addressedLog.exec s a = some (s', o)) :
    nonBlockingLog.exec s.1 a = some (s'.1, o) ∧ s'.2 = s.2.follow s.1 a := by
  obtain ⟨r, hexec, heq⟩ := Option.map_eq_some_iff.mp h
  cases heq
  exact ⟨hexec, rfl⟩

theorem init_addressed : Addressed (.init, .init) where
  sound := init_sound
  points := ⟨rfl, rfl, rfl, rfl, rfl, rfl⟩
  unique := LogPointers.init_unique
  taken := nofun

theorem preserves_sound : nonBlockingLog.Preserves Sound :=
  Program.preserves_of_ok exec_short exec_not_short

/-- An append and `stop` leave the spares and the thread alone. -/
theorem idle_exec (ha : a ≠ .thread) (hexec : addressedLog.exec s a = some (s', o)) :
    s'.1.newBuffer1 = s.1.newBuffer1 ∧ s'.1.newBuffer2 = s.1.newBuffer2 ∧
      s'.1.thread = s.1.thread := by
  obtain ⟨hlog, -⟩ := exec_addressed hexec
  cases a with
  | append msg =>
    obtain ⟨s₁, happ, heq⟩ := Option.map_eq_some_iff.mp hlog
    obtain rfl := congrArg Prod.fst heq
    obtain ⟨now, b, -, ⟨-, hs'⟩ | ⟨-, hs'⟩⟩ := append_cases happ
    · rw [hs']
      exact ⟨rfl, rfl, rfl⟩
    · rw [hs']
      exact ⟨rfl, rfl, rfl⟩
  | stop =>
    have hs' : s.1.stop = s'.1 := congrArg Prod.fst (Option.some.inj hlog)
    rw [← hs']
    exact ⟨rfl, rfl, rfl⟩
  | thread => exact absurd rfl ha

theorem thread_exec (hexec : addressedLog.exec s .thread = some (s', o)) :
    s.1.threadFunc = some s'.1 ∧ s'.2 = s.2.follow s.1 .thread := by
  obtain ⟨hlog, hfollow⟩ := exec_addressed hexec
  obtain ⟨s₁, hstep, heq⟩ := Option.map_eq_some_iff.mp hlog
  obtain rfl := congrArg Prod.fst heq
  exact ⟨hstep, hfollow⟩

theorem Points.stop {s : NonBlockingLog} {p : LogPointers} (h : Points s p) : Points s.stop p :=
  { h with }

theorem preserves_addressed : addressedLog.Preserves Addressed := by
  intro s a s' o h hpre hexec
  obtain ⟨hlog, hfollow⟩ := exec_addressed hexec
  have hsound := preserves_sound _ _ _ _ h.sound hpre hlog
  cases a with
  | append msg =>
    obtain ⟨hfirst, -, hthread⟩ := idle_exec (fun heq => by cases heq) hexec
    obtain ⟨s₁, happ, heq⟩ := Option.map_eq_some_iff.mp hlog
    obtain rfl := congrArg Prod.fst heq
    refine ⟨hsound, hfollow ▸ h.points.append happ, ?_, fun hwb => ?_⟩
    · rw [hfollow, LogPointers.follow]
      split
      · exact h.unique
      · exact h.unique.rotate
    · exact hfirst.trans (h.taken (hthread.symm.trans hwb))
  | stop =>
    cases hexec
    exact ⟨hsound, h.points.stop, h.unique, h.taken⟩
  | thread =>
    obtain ⟨hstep, hfollow⟩ := thread_exec hexec
    rw [threadFunc] at hstep
    rw [LogPointers.follow] at hfollow
    cases hthread : s.1.thread with
    | loop =>
      simp only [hthread] at hstep hfollow
      refine ⟨hsound, ?_, hfollow ▸ h.unique, fun hwb => ?_⟩
      · rw [hfollow, ← Option.some.inj hstep]
        exact { h.points with }
      · rw [← Option.some.inj hstep] at hwb
        simp only at hwb
        split at hwb <;> cases hwb
    | handOver =>
      simp only [hthread] at hstep hfollow
      have hs' := Option.some.inj hstep
      refine ⟨hsound, ?_, hfollow ▸ h.unique.handOver, fun _ => ?_⟩
      · rw [hfollow, ← hs']
        exact h.points.handOver
      · rw [← hs']
        rfl
    | writeBack =>
      simp only [hthread] at hstep hfollow
      refine ⟨hsound, hfollow ▸ h.points.writeBack hstep, hfollow ▸ h.unique.writeBack,
        fun hwb => ?_⟩
      obtain ⟨bs, text, p₁, bs₁, p₂, bs₂, -, -, -, hs'⟩ := writeBack_cases hstep
      rw [hs'] at hwb
      cases hwb
    | drain =>
      simp only [hthread] at hstep hfollow
      refine ⟨hsound, hfollow ▸ h.points.drain hstep, hfollow ▸ h.unique.drain, fun hwb => ?_⟩
      obtain ⟨⟨bs, text⟩, -, hs'⟩ := Option.map_eq_some_iff.mp hstep
      rw [← hs'] at hwb
      cases hwb
    | done => exact absurd hthread hpre

/-- The first spare takes the last written buffer, and nothing is left for the second. -/
theorem newBuffer2_writeBack {s s' : NonBlockingLog} (hnone : s.newBuffer1 = none)
    (hwb : s.writeBack = some s') : s'.newBuffer2.isSome ↔ s.newBuffer2.isSome := by
  obtain ⟨bs, text, p₁, bs₁, p₂, bs₂, -, hfirst, hsecond, rfl⟩ := writeBack_cases hwb
  rw [hnone] at hfirst
  obtain ⟨b, -, heq⟩ := Option.map_eq_some_iff.mp hfirst
  cases heq
  rw [refill] at hsecond
  split at hsecond
  · next hsome =>
    cases hsecond
    rfl
  · next hlost =>
    rw [releaseBack, List.getLast?_concat] at hsecond
    cases hsecond
    exact iff_of_false Bool.false_ne_true hlost

/-- **The second spare** is lost in a hand-over that needs it. -/
theorem newBuffer2_step (h : Addressed s) (hpre : addressedLog.pre s a)
    (hexec : addressedLog.exec s a = some (s', o)) :
    s'.1.newBuffer2.isSome ↔ s.1.newBuffer2.isSome ∧ NextLeft s a := by
  by_cases ha : a = .thread
  · subst ha
    obtain ⟨hstep, -⟩ := thread_exec hexec
    rw [threadFunc] at hstep
    have hleft (hne : s.1.thread ≠ .handOver) : NextLeft s .thread :=
      fun _ hhand => absurd hhand hne
    cases hthread : s.1.thread with
    | handOver =>
      simp only [hthread] at hstep
      rw [← Option.some.inj hstep, NextLeft, handOver]
      simp only [hthread, true_imp_iff]
      split
      · next hnext => exact (and_iff_left hnext).symm
      · next hnext => exact iff_of_false Bool.false_ne_true fun hboth => hnext hboth.2
    | writeBack =>
      simp only [hthread] at hstep
      rw [and_iff_left (hleft (by simp [hthread]))]
      exact newBuffer2_writeBack (h.taken hthread) hstep
    | loop =>
      simp only [hthread] at hstep
      rw [and_iff_left (hleft (by simp [hthread])), ← Option.some.inj hstep]
    | drain =>
      simp only [hthread] at hstep
      rw [and_iff_left (hleft (by simp [hthread]))]
      obtain ⟨⟨bs, text⟩, -, hs'⟩ := Option.map_eq_some_iff.mp hstep
      rw [← hs']
    | done => exact absurd hthread hpre
  · have hleft : NextLeft s a := fun heq => absurd heq ha
    rw [and_iff_left hleft, (idle_exec ha hexec).2.1]

/-- Between two iterations the spares stay what they are. -/
theorem idle_run {as : List LogAction} {os : List Unit} (has : ∀ a ∈ as, a ≠ .thread)
    (hrun : addressedLog.run s as = some (s', os)) :
    s'.1.newBuffer1 = s.1.newBuffer1 ∧ s'.1.newBuffer2 = s.1.newBuffer2 ∧
      s'.1.thread = s.1.thread := by
  induction as generalizing s os with
  | nil =>
    cases hrun
    exact ⟨rfl, rfl, rfl⟩
  | cons a as ih =>
    obtain ⟨ha, has⟩ := List.forall_mem_cons.mp has
    obtain ⟨s₁, o, os₁, hexec, htail, -⟩ := Program.run_cons_inv hrun
    obtain ⟨hfirst, hsecond, hthread⟩ := ih has htail
    rw [hfirst, hsecond, hthread]
    exact idle_exec ha hexec

/-- The test of `running_` does not touch the spares. -/
theorem loop_exec (hloop : s.1.thread = .loop)
    (hexec : addressedLog.exec s .thread = some (s', o)) :
    s'.1.newBuffer1 = s.1.newBuffer1 ∧ s'.1.newBuffer2 = s.1.newBuffer2 := by
  obtain ⟨hstep, -⟩ := thread_exec hexec
  simp only [threadFunc, hloop] at hstep
  rw [← Option.some.inj hstep]
  exact ⟨rfl, rfl⟩

theorem handOver_refills {s : NonBlockingLog} (hfirst : s.newBuffer1.isSome)
    (hsecond : s.newBuffer2.isSome) :
    s.handOver.nowBuffer.isSome ∧ s.handOver.nextBuffer.isSome := by
  refine ⟨hfirst, ?_⟩
  rw [NonBlockingLog.handOver, Option.isSome_or, hsecond, Bool.or_true]

/-- The second spare is all that can be missing at the end of an iteration. -/
theorem keepsSpares_iff (h : Addressed s) (hloop : s.1.thread = .loop) :
    KeepsSpares s ↔ s.1.newBuffer2.isSome := by
  constructor
  · intro hkeeps
    obtain ⟨b, hb, -⟩ := hkeeps.second
    rw [hb]
    rfl
  · intro hsecond
    have hfirst := h.sound.newBuffer1_isSome (.inl hloop)
    obtain ⟨b₁, hb₁⟩ := Option.isSome_iff_exists.mp hfirst
    obtain ⟨b₂, hb₂⟩ := Option.isSome_iff_exists.mp hsecond
    obtain ⟨i, hi⟩ := Option.isSome_iff_exists.mp (h.points.newBuffer1.trans hfirst)
    obtain ⟨j, hj⟩ := Option.isSome_iff_exists.mp (h.points.newBuffer2.trans hsecond)
    refine ⟨⟨b₁, hb₁, h.sound.newBuffer1 b₁ hb₁⟩, ⟨b₂, hb₂, h.sound.newBuffer2 b₂ hb₂⟩,
      ⟨i, j, hi, hj, ?_⟩, ?_⟩
    · -- two pointers to one buffer would be two holders
      rintro rfl
      have hone := h.unique.one i
      rw [LogPointers.holders_eq, hi, hj, List.count_singleton_self] at hone
      omega
    · intro before behind s' os hidle hrun hhand
      obtain ⟨hbefore, hbehind⟩ := List.forall_mem_append.mp hidle
      obtain ⟨s₁, os₁, os₂, hrun₁, htail, -⟩ := Program.run_append_inv hrun
      obtain ⟨s₂, o, os₃, hexec, hrun₂, -⟩ := Program.run_cons_inv htail
      obtain ⟨hfirst₁, hsecond₁, hthread₁⟩ := idle_run hbefore hrun₁
      obtain ⟨hfirst₂, hsecond₂⟩ := loop_exec (hthread₁.trans hloop) hexec
      obtain ⟨hfirst₃, hsecond₃, -⟩ := idle_run hbehind hrun₂
      apply handOver_refills
      · rw [hfirst₃, hfirst₂, hfirst₁]
        exact hfirst
      · rw [hsecond₃, hsecond₂, hsecond₁]
        exact hsecond

theorem newBuffer2_run {actions : List LogAction} {os : List Unit} (h : Addressed s)
    (hadm : addressedLog.Admissible s actions)
    (hrun : addressedLog.run s actions = some (s', os)) :
    s'.1.newBuffer2.isSome ↔
      s.1.newBuffer2.isSome ∧ (addressedLog.restrict NextLeft).Admissible s actions := by
  apply Program.run_flag_iff preserves_addressed _ h hadm hrun
  exact fun s a s' o h hpre hexec => newBuffer2_step h hpre hexec

end

/-- **When the log thread regains both spares.** -/
theorem keeps_spares_iff {actions : List LogAction} {s : NonBlockingLog × LogPointers}
    {os : List Unit} (hadm : addressedLog.Admissible (.init, .init) actions)
    (hrun : addressedLog.run (.init, .init) actions = some (s, os)) (hloop : s.1.thread = .loop) :
    KeepsSpares s ↔ (addressedLog.restrict NextLeft).Admissible (.init, .init) actions := by
  have hs : Addressed s := (Program.Reachable.of_run hadm hrun).invariant preserves_addressed
    init_addressed
  rw [keepsSpares_iff hs hloop, newBuffer2_run init_addressed hadm hrun]
  exact and_iff_right rfl

/-! ## Two runs -/

/-- One iteration without interruption. It meets the condition if `nextBuffer_` was not used up. -/
theorem iteration {s : NonBlockingLog × LogPointers} (h : Addressed s)
    (hloop : s.1.thread = .loop) (hrunning : s.1.running) :
    ∃ s' os, addressedLog.run s [.thread, .thread, .thread] = some (s', os) ∧
      s'.1.thread = .loop ∧ addressedLog.Admissible s [.thread, .thread, .thread] ∧
      ((addressedLog.restrict NextLeft).Admissible s [.thread, .thread, .thread] ↔
        s.1.nextBuffer.isSome) := by
  set s₁ : NonBlockingLog × LogPointers := ({ s.1 with thread := .handOver }, s.2)
  have hexec₁ : addressedLog.exec s .thread = some (s₁, ()) := by
    simp only [addressedLog, nonBlockingLog, threadFunc, hloop, hrunning, if_true, Option.map_some,
      LogPointers.follow, s₁]
  have hpre : addressedLog.pre s .thread := by
    change s.1.thread ≠ .done
    simp [hloop]
  have h₁ := preserves_addressed _ _ _ _ h hpre hexec₁
  have hexec₂ : addressedLog.exec s₁ .thread = some ((s₁.1.handOver, s₁.2.handOver), ()) := rfl
  have hpre₁ : addressedLog.pre s₁ .thread := fun hdone => by cases hdone
  have h₂ := preserves_addressed _ _ _ _ h₁ hpre₁ hexec₂
  have hpre₂ : addressedLog.pre (s₁.1.handOver, s₁.2.handOver) .thread :=
    fun hdone => by cases hdone
  obtain ⟨s₃, hstep, -⟩ := threadFunc_sound h₂.sound hpre₂
  have hexec₃ : addressedLog.exec (s₁.1.handOver, s₁.2.handOver) .thread =
      some ((s₃, s₁.2.handOver.writeBack), ()) := by
    simp only [addressedLog, nonBlockingLog, hstep, Option.map_some]
    rfl
  have hend : s₃.thread = .loop := by
    obtain ⟨bs, text, p₁, bs₁, p₂, bs₂, -, -, -, rfl⟩ := writeBack_cases hstep
    rfl
  refine ⟨(s₃, s₁.2.handOver.writeBack), [(), (), ()], ?_, hend, ?_, ?_⟩
  · simp [Program.run, hexec₁, hexec₂, hexec₃]
  · exact .cons hpre hexec₁ (.cons hpre₁ hexec₂ (.cons hpre₂ hexec₃ trivial))
  · constructor
    · intro hadm
      exact (hadm.2 s₁ () hexec₁).1.2 rfl rfl
    · intro hnext
      have hleft : NextLeft s .thread := fun _ hhand => by cases hloop.symm.trans hhand
      exact .cons ⟨hpre, hleft⟩ hexec₁ (.cons ⟨hpre₁, fun _ _ => hnext⟩ hexec₂
        (.cons ⟨hpre₂, fun _ hhand => by cases hhand⟩ hexec₃ trivial))

theorem exec_append {s s' : NonBlockingLog} (p : LogPointers) {msg : Bytes}
    (h : s.append msg = some s') :
    addressedLog.exec (s, p) (.append msg) = some ((s', p.follow s (.append msg)), ()) := by
  simp only [addressedLog, nonBlockingLog, h, Option.map_some]

/-- Two messages that do not fit into one buffer use `nextBuffer_` up. -/
theorem two_appends {msg msg' : Bytes} (h : msg.length < largeBufferSize)
    (h' : msg'.length < largeBufferSize) (hboth : largeBufferSize ≤ msg.length + msg'.length) :
    ∃ s os, addressedLog.run (.init, .init) [.append msg, .append msg'] = some (s, os) ∧
      addressedLog.Admissible (.init, .init) [.append msg, .append msg'] ∧
      s.1.thread = .loop ∧ s.1.running ∧ s.1.nextBuffer = none := by
  have hroom {m : Bytes} (hm : m.length < largeBufferSize) :
      ([] : Bytes).length + m.length < largeBufferSize := by simpa using hm
  obtain ⟨b, hb, hholds⟩ := fresh_holds.append (hroom h)
  obtain ⟨b', hb', -⟩ := fresh_holds.append (hroom h')
  set s₁ : NonBlockingLog := { init with nowBuffer := some b }
  set s₂ : NonBlockingLog := { s₁ with
    buffers := [some b], nowBuffer := some b', nextBuffer := none }
  have happ : init.append msg = some s₁ := by
    have hfree : msg.length < (FixBuffer.fresh : LargeFixBuffer).free := h
    simp only [append, init, if_pos hfree, hb, Option.map_some]
    rfl
  have hfull : ¬ msg'.length < b.free := by
    have hlen := hholds.length_eq
    rw [List.nil_append] at hlen
    rw [FixBuffer.free, ← hlen]
    omega
  have happ' : s₁.append msg' = some s₂ := by
    simp only [append, s₁, init, if_neg hfull, Option.getD_some, hb', Option.map_some]
    rfl
  have hexec := exec_append LogPointers.init happ
  have hexec' := exec_append (LogPointers.init.follow init (.append msg)) happ'
  have hrun' : addressedLog.run _ [.append msg'] = some _ :=
    (Program.run_cons hexec').mpr ⟨[], rfl, rfl⟩
  have hrun : addressedLog.run _ [.append msg, .append msg'] = some _ :=
    (Program.run_cons hexec).mpr ⟨_, hrun', rfl⟩
  have hadm : addressedLog.Admissible (init, .init) [.append msg, .append msg'] :=
    .cons (fun hdone => by cases hdone) hexec (.cons (fun hdone => by cases hdone) hexec' trivial)
  exact ⟨_, _, hrun, hadm, rfl, rfl, rfl⟩

theorem keeps_spares_idle : ∃ s, KeepsSpares s ∧ s.1.thread = .loop := by
  obtain ⟨s, os, hrun, hloop, hadm, hiff⟩ := iteration init_addressed rfl rfl
  exact ⟨s, (keeps_spares_iff hadm hrun hloop).mpr (hiff.mpr rfl), hloop⟩

/-- A buffer is filled up to its last byte, another message follows, and the log thread writes. -/
theorem spare_lost : ∃ actions s os, addressedLog.Admissible (.init, .init) actions ∧
    addressedLog.run (.init, .init) actions = some (s, os) ∧ s.1.thread = .loop ∧
      ¬ KeepsSpares s := by
  obtain ⟨msg, hmsg⟩ : ∃ msg : Bytes, msg.length + 1 = largeBufferSize :=
    ⟨List.replicate 3999999 97, by rw [List.length_replicate]; rfl⟩
  have hsecond : (ascii "b").length < largeBufferSize := by decide
  obtain ⟨s, os, hrun, hadm, hloop, hrunning, hnext⟩ :=
    two_appends (Nat.lt_of_succ_le hmsg.le) hsecond hmsg.ge
  have hs : Addressed s := (Program.Reachable.of_run hadm hrun).invariant preserves_addressed
    init_addressed
  obtain ⟨s', os', hrun', hloop', hadm', hiff⟩ := iteration hs hloop hrunning
  have hs' : Addressed s' := (Program.Reachable.of_run hadm' hrun').invariant preserves_addressed hs
  have hadms := (Program.Admissible.append_iff hrun).mpr ⟨hadm, hadm'⟩
  refine ⟨_, s', os ++ os', hadms, Program.run_append hrun hrun', hloop', fun hkeeps => ?_⟩
  have hsecond := (keepsSpares_iff hs' hloop').mp hkeeps
  rw [newBuffer2_run hs hadm' hrun', hiff, hnext] at hsecond
  exact Bool.false_ne_true hsecond.2

end NonBlockingLog
end Httpancake
