import Httpancake.Http.WellFormed
import Httpancake.Http.Faults
import Httpancake.Logging.LogStream
import Httpancake.Logging.NonBlockingLog

/-! # When the log buffers are overrun

Both kinds of log buffer stay in range exactly for short input: a `LOG` statement as long as its
text fits into the small buffer, and `NonBlockingLog::append` as long as the message fits into an
empty large one. Nothing bounds the text of a `LOG` statement, as the url of a request shows. -/

namespace Httpancake

open Bytes OnMessage

/-- No prefix of the insertions stores out of range. -/
def StreamInBounds (items : List Insertion) : Prop :=
  ∀ items', items' <+: items →
    ∃ b : SmallFixBuffer, insertAll .fresh items' = some b ∧ b.available ≤ smallBufferSize

/-- No prefix of the run stores out of range. -/
def LogInBounds (actions : List LogAction) : Prop :=
  ∀ actions', actions' <+: actions → ∃ s os, nonBlockingLog.run .init actions' = some (s, os) ∧
    ∀ b, some b ∈ s.owned → b.available ≤ largeBufferSize

theorem Fits.of_append {SIZE used : Nat} {is is' : List Insertion}
    (h : Fits SIZE used (is ++ is')) : Fits SIZE used is := by
  induction is generalizing used with
  | nil => trivial
  | cons i is ih =>
    by_cases hi : ∃ v, i = .integer v
    · obtain ⟨v, rfl⟩ := hi
      rw [List.cons_append, Fits] at h
      exact ih h
    · have hi : ∀ v, i ≠ .integer v := fun v hv => hi ⟨v, hv⟩
      rw [List.cons_append, fits_cons hi] at h
      exact (fits_cons hi).mpr ⟨h.1, ih h.2⟩

theorem streamInBounds_iff {items : List Insertion} :
    StreamInBounds items ↔ Fits smallBufferSize 0 items := by
  have hspec := insertAll_spec (FixBuffer.Holds.fresh (by decide : 0 < smallBufferSize))
  constructor
  · intro h
    by_contra hbad
    obtain ⟨b, hb, -⟩ := h items (List.prefix_refl items)
    rw [(hspec items).2 hbad] at hb
    cases hb
  · rintro h items' ⟨rest, rfl⟩
    obtain ⟨b, t, hb, ht⟩ := (hspec items').1 h.of_append
    exact ⟨b, hb, ht.available_lt.le⟩

theorem logInBounds_iff {actions : List LogAction}
    (hadm : nonBlockingLog.Admissible .init actions) :
    LogInBounds actions ↔ ∀ msg, .append msg ∈ actions → msg.length < largeBufferSize := by
  have hiff {actions' : List LogAction} (hadm : nonBlockingLog.Admissible .init actions') :=
    Program.run_isSome_iff NonBlockingLog.exec_short NonBlockingLog.exec_not_short
      NonBlockingLog.init_sound hadm
  constructor
  · intro h msg hmsg
    obtain ⟨s, os, hrun, -⟩ := h actions (List.prefix_refl actions)
    exact (hiff hadm).mp (by rw [hrun]; rfl) _ hmsg
  · rintro h actions' ⟨rest, rfl⟩
    have hshort : ∀ a ∈ actions', NonBlockingLog.Short a := by
      intro a ha
      cases a with
      | append msg => exact h msg (List.mem_append_left rest ha)
      | stop | thread => trivial
    obtain ⟨⟨s, os⟩, hrun⟩ := Option.isSome_iff_exists.mp ((hiff hadm.of_append).mpr hshort)
    have hs : NonBlockingLog.Sound s := Program.Reachable.invariant
      (Program.preserves_of_ok NonBlockingLog.exec_short NonBlockingLog.exec_not_short)
      NonBlockingLog.init_sound (.of_run hadm.of_append hrun)
    exact ⟨s, os, hrun, fun b hb => hs.available_le hb⟩

/-- **When the log buffers stay in range.** -/
theorem log_buffers_in_bounds_iff (items : List Insertion) {actions : List LogAction}
    (hadm : nonBlockingLog.Admissible .init actions) :
    (StreamInBounds items ↔ Fits smallBufferSize 0 items) ∧
    (LogInBounds actions ↔ ∀ msg, .append msg ∈ actions → msg.length < largeBufferSize) :=
  ⟨streamInBounds_iff, logInBounds_iff hadm⟩

theorem log_buffers_in_bounds_short :
    StreamInBounds [.string (ascii "url: "), .cstr none] ∧ LogInBounds [.append (ascii "a")] := by
  have hadm : nonBlockingLog.Admissible .init [.append (ascii "a")] :=
    ⟨nofun, fun _ _ _ => trivial⟩
  have hiff := log_buffers_in_bounds_iff [.string (ascii "url: "), .cstr none] hadm
  refine ⟨hiff.1.mpr ⟨by decide, by decide, trivial⟩, hiff.2.mpr ?_⟩
  intro msg hmsg
  cases List.mem_singleton.mp hmsg
  decide

theorem not_fits_of_mem {SIZE used : Nat} {items : List Insertion} {str : Bytes}
    (hmem : .string str ∈ items) (hlen : SIZE ≤ str.length) : ¬ Fits SIZE used items := by
  induction items generalizing used with
  | nil => cases hmem
  | cons i is ih =>
    intro hfits
    rcases List.mem_cons.mp hmem with rfl | htail
    · exact absurd hfits.1 (Nat.not_lt.mpr (hlen.trans (Nat.le_add_left _ _)))
    · by_cases hi : ∃ v, i = .integer v
      · obtain ⟨v, rfl⟩ := hi
        exact ih htail hfits
      · exact ih htail ((fits_cons fun v hv => hi ⟨v, hv⟩).mp hfits).2

/-- A call on a request logs its url. -/
theorem url_logged {fileDir connName : Bytes} (r : GetRequest) :
    ∃ es s', Steps ⟨fileDir, connName, noFiles⟩ (start .fresh (arrived (unlines r.lines)) 0) es s' ∧
      .log [ascii "onMessage(): [", cStr connName, ascii "] request: ", fileDir ++ r.target,
        ascii " failed."] ∈ es := by
  set env : Env := ⟨fileDir, connName, noFiles⟩
  have hlines : lines (unlines r.lines) = (r.lines, []) := lines_unlines r.lf_not_mem_lines
  have hserve : served env 0 (unlines r.lines) =
      (answer env 0 (r.answered fileDir)).andThen fun k => ([], .ok k) := by
    have hne : unlines r.lines ≠ [] := unlines_ne_nil
    have hwhole := @serve_lines env 0 r [] rfl
    rw [List.append_nil] at hwhole
    rw [served, if_neg hne, hlines, hwhole]
    rfl
  have hget : (r.answered fileDir).requestType = .getMethod := methodOf_requestLine r.target
  have hdoes := does_served env 0 (arrived_holds (unlines r.lines))
  rw [hserve, answer, if_pos hget] at hdoes
  obtain ⟨b, -, hsteps⟩ := hdoes
  refine ⟨_, _, hsteps, List.mem_append_left _ (List.mem_cons_of_mem _ ?_)⟩
  refine List.mem_append_left _ ?_
  rw [outcomeLog, if_neg (by simp), if_pos rfl]
  exact List.mem_singleton.mpr rfl

/-- A request with `n` letters in its target. -/
def longRequest (n : Nat) : GetRequest where
  target := ascii "/" ++ List.replicate n (byte 'a') ++ ascii ".c"
  headers := []
  dot := List.mem_append_right _ (by decide)
  target_ok := by simp [ascii, byte, SP, CR, LF, List.mem_replicate]
  keepAlive := by simp [firstValue]

theorem unlines_longRequest (n : Nat) : unlines (longRequest n).lines =
    ascii "GET /" ++ List.replicate n (byte 'a') ++ ascii ".c HTTP/1.1\r\n\r\n" := by
  simp [longRequest, GetRequest.lines, requestLine, blankLine, ascii, CR, LF]

/-- A request whose target has 4000 letters, and a log message as long as the large buffer. -/
theorem log_buffers_overrun :
    (∃ es s', Steps ⟨ascii "/srv", ascii "c", noFiles⟩
      (start .fresh (arrived (ascii "GET /" ++ List.replicate 4000 (byte 'a') ++
        ascii ".c HTTP/1.1\r\n\r\n")) 0) es s' ∧
      ∃ text, .log text ∈ es ∧ ∀ time basename line,
        ¬ StreamInBounds (logInsertions time (text.map .string) basename line)) ∧
    ¬ LogInBounds [.append (List.replicate largeBufferSize (byte 'a'))] := by
  constructor
  · obtain ⟨es, s', hsteps, hlog⟩ := @url_logged (ascii "/srv") (ascii "c") (longRequest 4000)
    rw [unlines_longRequest] at hsteps
    refine ⟨es, s', hsteps, _, hlog, fun time basename line hbounds => ?_⟩
    have hurl : .string (ascii "/srv" ++ (longRequest 4000).target) ∈ logInsertions time
        (List.map .string [ascii "onMessage(): [", cStr (ascii "c"), ascii "] request: ",
          ascii "/srv" ++ (longRequest 4000).target, ascii " failed."]) basename line := by
      simp [logInsertions]
    refine not_fits_of_mem hurl ?_ (streamInBounds_iff.mp hbounds)
    rw [longRequest, List.length_append, List.length_append, List.length_append,
      List.length_replicate, smallBufferSize]
    omega
  · intro h
    have hadm : nonBlockingLog.Admissible .init
        [.append (List.replicate largeBufferSize (byte 'a'))] := ⟨nofun, fun _ _ _ => trivial⟩
    have hlen := (logInBounds_iff hadm).mp h _ List.mem_cons_self
    rw [List.length_replicate] at hlen
    exact Nat.lt_irrefl _ hlen

end Httpancake
