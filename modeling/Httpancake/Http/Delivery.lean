import Httpancake.Http.Endings

/-! # Input that arrives in chunks

`Delivery` is a connection on which chunks arrive one after another: `read_fd` appends the next
chunk to the input buffer and `onMessage` is called on it, as `TcpConnection::handleRead` does.
`deliver` computes what the sequence of calls does, and `Delivery.ends_iff` connects it to the
machine. -/

namespace Httpancake

open Bytes OnMessage

/-- The current call, and the chunks that have not arrived. -/
structure Delivery where
  call : OnMessage
  chunks : List Bytes

namespace Delivery

/-- A fresh connection. -/
def init (chunks : List Bytes) : Delivery := ⟨⟨.returned, .fresh, .fresh, 0⟩, chunks⟩

def Final (d : Delivery) : Prop :=
  match d.call.pc with
  | .stopped _ => True
  | .returned => d.chunks = []
  | _ => False

/-- The next chunk arrives when the call on the last one has returned. -/
def arrive (d : Delivery) : Delivery :=
  match d.chunks with
  | [] => d
  | chunk :: chunks =>
    match d.call.inBuffer.readFd (some chunk) with
    | none => { d with call := { d.call with pc := .stopped .assertion } }
    | some inBuffer => ⟨start d.call.conn inBuffer d.call.fsCalls, chunks⟩

def step (env : Env) (d : Delivery) : Delivery × List Effect :=
  match d.call.pc with
  | .returned => (d.arrive, [])
  | .stopped _ => (d, [])
  | _ => (⟨(OnMessage.step env d.call).1, d.chunks⟩, (OnMessage.step env d.call).2)

theorem step_final (env : Env) (d : Delivery) (h : d.Final) : step env d = (d, []) := by
  unfold step
  cases hpc : d.call.pc with
  | returned =>
    simp only [Final, hpc] at h
    simp only [arrive, h]
  | stopped f => rfl
  | _ => simp [Final, hpc] at h

abbrev machine (env : Env) : Machine Delivery Effect where
  step := step env
  Final := Final
  step_final := step_final env

end Delivery

/-! ## Outcomes -/

/-- What a delivery that has ended has done to the connection. -/
structure Outcome where
  responses : List Bytes
  forceClosed : Bool
  fault : Option Fault
  deriving DecidableEq, Repr

namespace Outcome

/-- Nothing was done. -/
def empty : Outcome := ⟨[], false, none⟩

def andThen (o o' : Outcome) : Outcome :=
  match o.fault with
  | some _ => o
  | none => ⟨o.responses ++ o'.responses, o.forceClosed || o'.forceClosed, o'.fault⟩

@[simp] theorem empty_andThen (o : Outcome) : empty.andThen o = o := by simp [andThen, empty]

@[simp] theorem andThen_empty (o : Outcome) : o.andThen empty = o := by
  obtain ⟨rs, b, f⟩ := o
  cases f <;> simp [andThen, empty]

theorem andThen_assoc (o o' o'' : Outcome) :
    (o.andThen o').andThen o'' = o.andThen (o'.andThen o'') := by
  obtain ⟨rs, b, f⟩ := o
  obtain ⟨rs', b', f'⟩ := o'
  cases f <;> cases f' <;> simp [andThen, Bool.or_assoc]

end Outcome

def Effect.response? : Effect → Option Bytes
  | .send msg => some msg
  | _ => none

/-- The responses among the effects and whether the connection is closed. -/
def outcome (r : Served) : Outcome where
  responses := r.1.filterMap Effect.response?
  forceClosed := decide (.forceClose ∈ r.1)
  fault := match r.2 with
    | .ok _ => none
    | .error f => some f

theorem outcome_andThen {r : Served} {f : Nat → Served} {o : Outcome}
    (h : ∀ k, outcome (f k) = o) : outcome (r.andThen f) = (outcome r).andThen o := by
  obtain ⟨es, res⟩ := r
  cases res with
  | error f => rfl
  | ok k =>
    rw [← h k]
    simp [Served.andThen, outcome, Outcome.andThen]

/-- The calls on all chunks; `none` when one of them does not end. -/
def deliver (env : Env) : Nat → List Bytes → Option Served
  | k, [] => some ([], .ok k)
  | k, chunk :: chunks =>
    match serve env k .request (lines chunk).1 with
    | (es, .error f) => some (es, .error f)
    | (es, .ok k') =>
      if (lines chunk).2 = [] then (deliver env k' chunks).map fun r => (es ++ r.1, r.2)
      else none

namespace Delivery

variable {env : Env} {s s' : OnMessage} {es : List Effect} {chunks : List Bytes} {d : Delivery}

/-- The result of the last call. -/
def result (d : Delivery) : Except Fault Nat :=
  match d.call.pc with
  | .stopped f => .error f
  | _ => .ok d.call.fsCalls

/-- The delivery ends with `o`. -/
def Ends (env : Env) (chunks : List Bytes) (o : Outcome) : Prop :=
  ∃ es d, (machine env).Steps (init chunks) es d ∧ d.Final ∧ o = outcome (es, d.result)

/-! ## One call -/

theorem step_call (h : ¬ s.pc.Final) :
    step env ⟨s, chunks⟩ = (⟨(OnMessage.step env s).1, chunks⟩, (OnMessage.step env s).2) := by
  unfold step
  cases hpc : s.pc <;> simp_all [Pc.Final]

/-- The steps of a call are steps of the delivery. -/
theorem steps_call (h : OnMessage.Steps env s es s') :
    (machine env).Steps ⟨s, chunks⟩ es ⟨s', chunks⟩ := by
  obtain ⟨n, hn⟩ := h
  induction n generalizing s es with
  | zero =>
    cases hn
    exact .refl
  | succ n ih =>
    by_cases hfinal : s.pc.Final
    · have hstay : (OnMessage.machine env).run (n + 1) s = (s, []) :=
        Machine.run_final hfinal (n + 1)
      rw [hstay] at hn
      cases hn
      exact .refl
    · rw [Machine.run] at hn
      cases hn
      exact Machine.Steps.head (step_call hfinal) (ih rfl)

theorem terminates_call (h : (machine env).Terminates ⟨s, chunks⟩) :
    (OnMessage.machine env).Terminates s := by
  obtain ⟨n, hn⟩ := h
  induction n generalizing s with
  | zero =>
    refine Machine.terminates_of_final ?_
    change Final ⟨s, chunks⟩ at hn
    unfold Final at hn
    change s.pc.Final
    cases hpc : s.pc <;> simp_all [Pc.Final]
  | succ n ih =>
    by_cases hfinal : s.pc.Final
    · exact Machine.terminates_of_final hfinal
    · rw [Machine.run] at hn
      simp only [step_call hfinal] at hn
      have hsteps : OnMessage.Steps env s (OnMessage.step env s).2 (OnMessage.step env s).1 :=
        ⟨1, by simp [Machine.run]⟩
      exact hsteps.terminates_iff.mpr (ih hn)

/-! ## All chunks -/

/-- A delivery that waits for the next chunk. -/
def waiting (b : Buffer) (k : Nat) (chunks : List Bytes) : Delivery :=
  ⟨⟨.returned, .fresh, b, k⟩, chunks⟩

/-- The delivery does what `r` says and ends. -/
def Finishes (env : Env) (d : Delivery) (r : Served) : Prop :=
  ∃ d', (machine env).Steps d r.1 d' ∧ d'.Final ∧ r.2 = d'.result

theorem arrive_waiting {b : Buffer} {k : Nat} (hb : b.Holds []) (chunk : Bytes) :
    ∃ b', b'.Holds chunk ∧
      step env (waiting b k (chunk :: chunks)) = (⟨start .fresh b' k, chunks⟩, []) := by
  obtain ⟨b', hread, hb'⟩ := hb.readFd chunk
  exact ⟨b', hb', by simp [step, waiting, arrive, hread]⟩

theorem after_eq_waiting {b : Buffer} {k : Nat} (hb : b.Holds []) :
    (⟨after b k, chunks⟩ : Delivery) = waiting b k chunks := by
  simp [after, waiting, hb.readableBytes_eq]

/-- **Chunks are served one by one.** -/
theorem deliver_spec (hne : ∀ c ∈ chunks, c ≠ []) {b : Buffer} {k : Nat} (hb : b.Holds []) :
    match deliver env k chunks with
    | some r => Finishes env (waiting b k chunks) r
    | none => ¬ (machine env).Terminates (waiting b k chunks) := by
  induction chunks generalizing b k with
  | nil => exact ⟨waiting b k [], .refl, rfl, rfl⟩
  | cons chunk chunks ih =>
    obtain ⟨b', hb', hstep⟩ := @arrive_waiting env chunks b k hb chunk
    have hserved : served env k chunk = serve env k .request (lines chunk).1 :=
      if_neg (hne chunk List.mem_cons_self)
    have hdoes := does_served env k hb'
    rw [hserved] at hdoes
    have ih := fun b k => @ih (fun c hc => hne c (List.mem_cons_of_mem _ hc)) b k
    rw [deliver]
    cases hserve : serve env k .request (lines chunk).1 with
    | mk es res =>
    rw [hserve] at hdoes
    cases res with
    | error f =>
      obtain ⟨s', hpc, hs⟩ := hdoes
      refine ⟨⟨s', chunks⟩, .silent hstep (steps_call hs), ?_, ?_⟩
      · simp [Final, hpc]
      · simp [result, hpc]
    | ok k' =>
      obtain ⟨b'', hb'', hs⟩ := hdoes
      have hsteps : (machine env).Steps (waiting b k (chunk :: chunks)) es
          ⟨after b'' k', chunks⟩ := .silent hstep (steps_call hs)
      by_cases hrest : (lines chunk).2 = []
      · rw [hrest] at hb''
        rw [after_eq_waiting hb''] at hsteps
        have ih := ih b'' k' hb''
        simp only [if_pos hrest]
        cases hd : deliver env k' chunks with
        | none =>
          rw [hd] at ih
          exact fun h => ih (hsteps.terminates_iff.mp h)
        | some r =>
          rw [hd] at ih
          obtain ⟨d', hs', hfinal, hr⟩ := ih
          exact ⟨d', hsteps.trans hs', hfinal, hr⟩
      · simp only [if_neg hrest]
        intro h
        have hterm := terminates_call (hsteps.terminates_iff.mp h)
        exact not_terminates_unfinished hb'' (not_mem_lines_rest chunk) hrest hterm

/-- Which outcomes a delivery has. -/
theorem ends_iff (hne : ∀ c ∈ chunks, c ≠ []) {o : Outcome} :
    Ends env chunks o ↔ (deliver env 0 chunks).map outcome = some o := by
  have hspec := @deliver_spec env chunks hne .fresh 0 Buffer.Holds.fresh
  cases hd : deliver env 0 chunks with
  | none =>
    rw [hd] at hspec
    simp only [Option.map_none, reduceCtorEq, iff_false]
    rintro ⟨es, d, hs, hfinal, -⟩
    exact hspec (hs.terminates_iff.mpr (Machine.terminates_of_final hfinal))
  | some r =>
    rw [hd] at hspec
    obtain ⟨d, hs, hfinal, hr⟩ := hspec
    simp only [Option.map_some, Option.some.injEq]
    constructor
    · rintro ⟨es', d', hs', hfinal', rfl⟩
      obtain ⟨rfl, rfl⟩ := hs.final_unique hfinal hs' hfinal'
      rw [← hr]
    · rintro rfl
      exact ⟨r.1, d, hs, hfinal, by rw [← hr]⟩

end Delivery
end Httpancake
