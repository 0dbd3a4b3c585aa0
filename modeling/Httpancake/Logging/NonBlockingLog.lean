import Httpancake.Lib.Program
import Httpancake.Logging.FixBuffer

/-! # The asynchronous log

`NonBlockingLog` of `src/logging/NonBlockingLog.cpp`: the buffers that the callers of `append` fill
and the thread that writes them to the log file. The region under the mutex of each party is one
action; `wait_for` may return at any time. An action answers `none` where a buffer is written out
of range or a null pointer is used. -/

namespace Httpancake

open Bytes

abbrev LargeFixBuffer := FixBuffer largeBufferSize

/-- The position of `threadFunc`. -/
inductive LogThread where
  /-- Before the test of `running_`. -/
  | loop
  | handOver
  | writeBack
  /-- Behind the loop. -/
  | drain
  | done
  deriving DecidableEq, Repr

/-- A null pointer is `none`. -/
structure NonBlockingLog where
  buffers : List (Option LargeFixBuffer)
  nowBuffer : Option LargeFixBuffer
  nextBuffer : Option LargeFixBuffer
  running : Bool
  logFile : Bytes
  thread : LogThread
  newBuffer1 : Option LargeFixBuffer
  newBuffer2 : Option LargeFixBuffer
  writeBackBuffers : List (Option LargeFixBuffer)

inductive LogAction where
  | append (msg : Bytes)
  | stop
  | thread

namespace NonBlockingLog

/-- The constructed object, whose thread is at the head of its loop. -/
def init : NonBlockingLog where
  buffers := []
  nowBuffer := some .fresh
  nextBuffer := some .fresh
  running := true
  logFile := []
  thread := .loop
  newBuffer1 := some .fresh
  newBuffer2 := some .fresh
  writeBackBuffers := []

def append (s : NonBlockingLog) (msg : Bytes) : Option NonBlockingLog :=
  match s.nowBuffer with
  | none => none
  | some now =>
    if msg.length < now.free then
      (now.append msg).map fun b => { s with nowBuffer := some b }
    else
      ((s.nextBuffer.getD .fresh).append msg).map fun b =>
        { s with buffers := s.buffers ++ [some now], nowBuffer := some b, nextBuffer := none }

def stop (s : NonBlockingLog) : NonBlockingLog := { s with running := false }

/-! ## The thread -/

def handOver (s : NonBlockingLog) : NonBlockingLog :=
  { s with
    writeBackBuffers := s.buffers ++ [s.nowBuffer]
    buffers := s.writeBackBuffers
    nowBuffer := s.newBuffer1
    newBuffer1 := none
    nextBuffer := s.nextBuffer.or s.newBuffer2
    newBuffer2 := if s.nextBuffer.isSome then s.newBuffer2 else none
    thread := .writeBack }

/-- The contents of the buffers are written, and the buffers are empty afterwards. -/
def writeAll : List (Option LargeFixBuffer) → Option (List (Option LargeFixBuffer) × Bytes)
  | [] => some ([], [])
  | none :: _ => none
  | some b :: bs =>
    (writeAll bs).map fun (bs, text) => (some b.getContent.1 :: bs, b.getContent.2 ++ text)

/-- `bs.back().release()`. -/
def releaseBack (bs : List (Option LargeFixBuffer)) :
    Option (Option LargeFixBuffer × List (Option LargeFixBuffer)) :=
  bs.getLast?.map fun b => (b, bs.dropLast ++ [none])

/-- `if (!buffer) buffer.reset(bs.back().release())`. -/
def refill (buffer : Option LargeFixBuffer) (bs : List (Option LargeFixBuffer)) :
    Option (Option LargeFixBuffer × List (Option LargeFixBuffer)) :=
  if buffer.isSome then some (buffer, bs) else releaseBack bs

def writeBack (s : NonBlockingLog) : Option NonBlockingLog := do
  let (bs, text) ← writeAll s.writeBackBuffers
  let (newBuffer1, bs) ← refill s.newBuffer1 (bs.take 2)
  let (newBuffer2, _) ← refill s.newBuffer2 bs
  return { s with
    logFile := s.logFile ++ text
    newBuffer1
    newBuffer2
    writeBackBuffers := []
    thread := .loop }

def drain (s : NonBlockingLog) : Option NonBlockingLog :=
  (writeAll (s.buffers ++ [s.nowBuffer])).map fun (bs, text) =>
    { s with
      writeBackBuffers := bs
      buffers := s.writeBackBuffers
      nowBuffer := none
      logFile := s.logFile ++ text
      thread := .done }

/-- The next step of `threadFunc`. -/
def threadFunc (s : NonBlockingLog) : Option NonBlockingLog :=
  match s.thread with
  | .loop => some { s with thread := if s.running then .handOver else .drain }
  | .handOver => some s.handOver
  | .writeBack => s.writeBack
  | .drain => s.drain
  | .done => some s

end NonBlockingLog

/-- Appends from any threads, `stop`, and the log thread. Nothing is appended after the thread has
ended. -/
def nonBlockingLog : Program NonBlockingLog LogAction Unit where
  pre s
    | .append _ => s.thread ≠ .done
    | .stop => True
    | .thread => s.thread ≠ .done
  exec s
    | .append msg => (s.append msg).map (·, ())
    | .stop => some (s.stop, ())
    | .thread => s.threadFunc.map (·, ())

namespace NonBlockingLog

/-! ## Ownership -/

/-- A buffer that is owned and written in range. -/
def Owned (p : Option LargeFixBuffer) : Prop := ∃ b t, p = some b ∧ b.Holds t

/-- A buffer that is empty if it is owned. -/
def Spare (p : Option LargeFixBuffer) : Prop := ∀ b ∈ p, b.Holds []

/-- Buffers that are handed on are owned, and the current buffer is replaced by an empty one. -/
structure Sound (s : NonBlockingLog) : Prop where
  buffers : ∀ p ∈ s.buffers, Owned p
  nowBuffer : s.thread ≠ .done → Owned s.nowBuffer
  nowBuffer_eq_none : s.thread = .done → s.nowBuffer = none
  nextBuffer : Spare s.nextBuffer
  newBuffer1 : Spare s.newBuffer1
  newBuffer1_isSome : s.thread = .loop ∨ s.thread = .handOver → s.newBuffer1.isSome
  newBuffer2 : Spare s.newBuffer2
  writeBackBuffers : ∀ p ∈ s.writeBackBuffers, Owned p
  writeBackBuffers_ne_nil : s.thread = .writeBack → s.writeBackBuffers ≠ []

theorem Spare.owned {p : Option LargeFixBuffer} (h : Spare p) (hp : p.isSome) : Owned p := by
  obtain ⟨b, rfl⟩ := Option.isSome_iff_exists.mp hp
  exact ⟨b, [], rfl, h b rfl⟩

theorem fresh_holds : (FixBuffer.fresh : LargeFixBuffer).Holds [] := .fresh (by decide)

theorem spare_fresh : Spare (some FixBuffer.fresh) := by
  rintro b ⟨⟩
  exact fresh_holds

theorem Spare.getD {p : Option LargeFixBuffer} (h : Spare p) : (p.getD .fresh).Holds [] := by
  cases p with
  | none => exact fresh_holds
  | some b => exact h b rfl

theorem init_sound : Sound init where
  buffers := by simp [init]
  nowBuffer _ := ⟨_, [], rfl, fresh_holds⟩
  nowBuffer_eq_none h := by cases h
  nextBuffer := spare_fresh
  newBuffer1 := spare_fresh
  newBuffer1_isSome _ := rfl
  newBuffer2 := spare_fresh
  writeBackBuffers := by simp [init]
  writeBackBuffers_ne_nil h := by cases h

variable {s s' : NonBlockingLog}

/-- A message that fits into an empty buffer is appended. -/
theorem append_sound (h : Sound s) (hdone : s.thread ≠ .done) {msg : Bytes}
    (hlen : msg.length < largeBufferSize) : ∃ s', s.append msg = some s' ∧ Sound s' := by
  obtain ⟨now, t, hnow, hnowt⟩ := h.nowBuffer hdone
  rw [append, hnow]
  by_cases hfree : msg.length < now.free
  · have hlt := hnowt.available_lt
    have hroom : t.length + msg.length < largeBufferSize := by
      rw [FixBuffer.free] at hfree
      rw [hnowt.length_eq]
      omega
    obtain ⟨b, happ, hb⟩ := hnowt.append hroom
    refine ⟨_, by simp only [if_pos hfree, happ]; rfl, ?_⟩
    exact { h with
      nowBuffer := fun _ => ⟨b, _, rfl, hb⟩
      nowBuffer_eq_none := fun hd => absurd hd hdone }
  · have hroom : ([] : Bytes).length + msg.length < largeBufferSize := by simpa using hlen
    obtain ⟨b, happ, hb⟩ := h.nextBuffer.getD.append hroom
    refine ⟨_, by simp only [if_neg hfree, happ]; rfl, ?_⟩
    refine { h with
      buffers := ?_
      nowBuffer := fun _ => ⟨b, _, rfl, hb⟩
      nowBuffer_eq_none := fun hd => absurd hd hdone
      nextBuffer := ?_ }
    · intro p hp
      rcases List.mem_append.mp hp with hp | hp
      · exact h.buffers p hp
      · exact ⟨now, t, List.mem_singleton.mp hp, hnowt⟩
    · rintro b ⟨⟩

/-- Any other message is stored past the end of an empty buffer. -/
theorem append_eq_none (h : Sound s) {msg : Bytes} (hlen : largeBufferSize ≤ msg.length) :
    s.append msg = none := by
  rw [append]
  cases s.nowBuffer with
  | none => rfl
  | some now =>
    have hfree : ¬ msg.length < now.free := by
      rw [FixBuffer.free]
      omega
    simp only [if_neg hfree]
    rw [h.nextBuffer.getD.append_eq_none (by simpa using hlen)]
    rfl

theorem writeAll_owned {bs : List (Option LargeFixBuffer)} (h : ∀ p ∈ bs, Owned p) :
    ∃ bs' text, writeAll bs = some (bs', text) ∧ bs'.length = bs.length ∧
      ∀ p ∈ bs', Owned p ∧ Spare p := by
  induction bs with
  | nil => exact ⟨[], [], rfl, rfl, by simp⟩
  | cons p bs ih =>
    obtain ⟨b, t, rfl, hb⟩ := h p List.mem_cons_self
    obtain ⟨bs', text, hwrite, hlen, hbs'⟩ := ih fun p hp => h p (List.mem_cons_of_mem _ hp)
    refine ⟨_, _, by rw [writeAll, hwrite]; rfl, by simp [hlen], ?_⟩
    intro p hp
    rcases List.mem_cons.mp hp with rfl | hp
    · have hempty := hb.getContent.2
      refine ⟨⟨_, _, rfl, hempty⟩, ?_⟩
      rintro b ⟨⟩
      exact hempty
    · exact hbs' p hp

theorem refill_spare {p : Option LargeFixBuffer} {bs : List (Option LargeFixBuffer)}
    (hp : Spare p) (hne : bs ≠ []) (hbs : ∀ p ∈ bs, Spare p) :
    ∃ p' bs', refill p bs = some (p', bs') ∧ Spare p' ∧ bs' ≠ [] ∧ (∀ p ∈ bs', Spare p) ∧
      ((∀ p ∈ bs, Owned p) → p'.isSome) := by
  rw [refill]
  split
  · next hsome => exact ⟨p, bs, rfl, hp, hne, hbs, fun _ => hsome⟩
  · have hlast := List.getLast?_eq_some_getLast hne
    refine ⟨bs.getLast hne, bs.dropLast ++ [none], by rw [releaseBack, hlast]; rfl,
      hbs _ (List.getLast_mem hne), by simp, ?_, ?_⟩
    · intro p hp
      rcases List.mem_append.mp hp with hp | hp
      · exact hbs p (List.mem_of_mem_dropLast hp)
      · rw [List.mem_singleton.mp hp]
        rintro b ⟨⟩
    · intro howned
      obtain ⟨b, t, hb, -⟩ := howned _ (List.getLast_mem hne)
      rw [hb]
      rfl

theorem threadFunc_sound (h : Sound s) (hdone : s.thread ≠ .done) :
    ∃ s', s.threadFunc = some s' ∧ Sound s' := by
  rw [threadFunc]
  cases hthread : s.thread with
  | loop =>
    refine ⟨_, rfl, h.buffers, fun _ => h.nowBuffer hdone, ?_, h.nextBuffer, h.newBuffer1,
      fun _ => h.newBuffer1_isSome (.inl hthread), h.newBuffer2, h.writeBackBuffers, ?_⟩
    · intro hd
      simp only at hd
      split at hd <;> cases hd
    · intro hwb
      simp only at hwb
      split at hwb <;> cases hwb
  | handOver =>
    refine ⟨_, rfl, h.writeBackBuffers,
      fun _ => h.newBuffer1.owned (h.newBuffer1_isSome (.inr hthread)), nofun, ?_, ?_, ?_, ?_, ?_,
      ?_⟩
    · intro b hb
      rcases Option.or_eq_some_iff.mp hb with hb | ⟨-, hb⟩
      · exact h.nextBuffer b hb
      · exact h.newBuffer2 b hb
    · rintro b ⟨⟩
    · rintro (h | h) <;> cases h
    · intro b hb
      simp only [NonBlockingLog.handOver] at hb
      split at hb
      · exact h.newBuffer2 b hb
      · cases hb
    · intro p hp
      rcases List.mem_append.mp hp with hp | hp
      · exact h.buffers p hp
      · rw [List.mem_singleton.mp hp]
        exact h.nowBuffer hdone
    · intro _
      exact List.append_ne_nil_of_right_ne_nil _ (List.cons_ne_nil _ _)
  | writeBack =>
    obtain ⟨bs, text, hwrite, hlen, hbs⟩ := writeAll_owned h.writeBackBuffers
    have hne : bs.take 2 ≠ [] := by
      have hwb := h.writeBackBuffers_ne_nil hthread
      cases bs with
      | nil => exact absurd (List.length_eq_zero_iff.mp hlen.symm) hwb
      | cons b bs => simp
    have htake : ∀ p ∈ bs.take 2, Owned p ∧ Spare p := fun p hp => hbs p (List.mem_of_mem_take hp)
    obtain ⟨p₁, bs₁, hrefill₁, hp₁, hne₁, hbs₁, hsome⟩ :=
      refill_spare h.newBuffer1 hne fun p hp => (htake p hp).2
    obtain ⟨p₂, bs₂, hrefill₂, hp₂, -, -, -⟩ := refill_spare h.newBuffer2 hne₁ hbs₁
    have hstep : s.writeBack = some
        { s with
          logFile := s.logFile ++ text
          newBuffer1 := p₁
          newBuffer2 := p₂
          writeBackBuffers := []
          thread := .loop } := by
      simp only [NonBlockingLog.writeBack, hwrite, hrefill₁, hrefill₂, Option.bind_eq_bind,
        Option.bind_some, Option.pure_def]
    exact ⟨_, hstep, h.buffers, fun _ => h.nowBuffer hdone, nofun, h.nextBuffer, hp₁,
      fun _ => hsome fun p hp => (htake p hp).1, hp₂, by simp, nofun⟩
  | drain =>
    have hall : ∀ p ∈ s.buffers ++ [s.nowBuffer], Owned p := by
      intro p hp
      rcases List.mem_append.mp hp with hp | hp
      · exact h.buffers p hp
      · rw [List.mem_singleton.mp hp]
        exact h.nowBuffer hdone
    obtain ⟨bs, text, hwrite, -, hbs⟩ := writeAll_owned hall
    have hstep : s.drain = some
        { s with
          writeBackBuffers := bs
          buffers := s.writeBackBuffers
          nowBuffer := none
          logFile := s.logFile ++ text
          thread := .done } := by
      simp only [NonBlockingLog.drain, hwrite, Option.map_some]
    exact ⟨_, hstep, h.writeBackBuffers, fun hne => absurd rfl hne, fun _ => rfl, h.nextBuffer,
      h.newBuffer1, nofun, h.newBuffer2, fun p hp => (hbs p hp).1, nofun⟩
  | done => exact absurd hthread hdone

/-- The actions that stay in range. -/
def Short : LogAction → Prop
  | .append msg => msg.length < largeBufferSize
  | _ => True

theorem exec_short (s : NonBlockingLog) (a : LogAction) (h : Sound s)
    (hpre : nonBlockingLog.pre s a) (ha : Short a) :
    ∃ s' o, nonBlockingLog.exec s a = some (s', o) ∧ Sound s' := by
  cases a with
  | append msg =>
    obtain ⟨s', happ, hs'⟩ := append_sound h hpre ha
    exact ⟨s', (), by simp only [nonBlockingLog, happ, Option.map_some], hs'⟩
  | stop => exact ⟨s.stop, (), rfl, { h with }⟩
  | thread =>
    obtain ⟨s', hstep, hs'⟩ := threadFunc_sound h hpre
    exact ⟨s', (), by simp only [nonBlockingLog, hstep, Option.map_some], hs'⟩

theorem exec_not_short (s : NonBlockingLog) (a : LogAction) (h : Sound s)
    (_ : nonBlockingLog.pre s a) (ha : ¬ Short a) : nonBlockingLog.exec s a = none := by
  cases a with
  | append msg =>
    simp only [nonBlockingLog, append_eq_none h (Nat.le_of_not_lt ha), Option.map_none]
  | stop | thread => exact absurd trivial ha

/-- All buffers, with null pointers. -/
def owned (s : NonBlockingLog) : List (Option LargeFixBuffer) :=
  s.buffers ++ [s.nowBuffer, s.nextBuffer, s.newBuffer1, s.newBuffer2] ++ s.writeBackBuffers

theorem Sound.available_le (h : Sound s) {b : LargeFixBuffer} (hb : some b ∈ s.owned) :
    b.available ≤ largeBufferSize := by
  have howned : ∀ p, Owned p → p = some b → b.available ≤ largeBufferSize := by
    rintro p ⟨b', t, rfl, hb'⟩ ⟨⟩
    exact hb'.available_lt.le
  have hspare : ∀ p, Spare p → p = some b → b.available ≤ largeBufferSize := by
    rintro p hp rfl
    exact (hp b rfl).available_lt.le
  simp only [owned, List.mem_append, List.mem_cons, List.not_mem_nil, or_false] at hb
  rcases hb with (hb | hb | hb | hb | hb) | hb
  · exact howned _ (h.buffers _ hb) rfl
  · by_cases hdone : s.thread = .done
    · rw [h.nowBuffer_eq_none hdone] at hb
      cases hb
    · exact howned _ (h.nowBuffer hdone) hb.symm
  · exact hspare _ h.nextBuffer hb.symm
  · exact hspare _ h.newBuffer1 hb.symm
  · exact hspare _ h.newBuffer2 hb.symm
  · exact howned _ (h.writeBackBuffers _ hb) rfl

end NonBlockingLog
end Httpancake
