import Httpancake.Server.Threads

/-! # Which thread does what

Every function of the server keeps to the loop it is at home on: it calls that loop's poller, uses
its timers and the buffers of its connections, calls what is at home there or nowhere, and hands
everything else to the loop that it belongs to. So every run does. -/

namespace Httpancake

open LoopOp (Keeps Allowed Callable)

namespace Threads
variable {T : Type*} {l : Layout} {f : ServerFunction} {ops : List Op}

/-- The operations are allowed in a function that is at home on `lp`. -/
abbrev KeepsTo (l : Layout) (lp : Loop) (ops : List Op) : Prop :=
  Keeps l.loopOf l.home (some lp) ops

theorem update_keeps (id : HandlerId) (h : Handler) : KeepsTo l (l.ownerLp id) (update l id h) := by
  refine Keeps.cons_iff.mpr ⟨rfl, ?_⟩
  split
  · exact Keeps.cons_iff.mpr ⟨trivial, .nil⟩
  · refine Keeps.cons_iff.mpr ⟨?_, .nil⟩
    intro lp hlp
    exact (Option.some.inj hlp).symm

theorem removeHandler_keeps (id : HandlerId) : KeepsTo l (l.ownerLp id) (removeHandler l id) :=
  Keeps.cons_iff.mpr ⟨rfl, Keeps.cons_iff.mpr ⟨trivial, .nil⟩⟩

/-! ### The timers -/

theorem assertSizes_keeps (lp : Loop) : KeepsTo l lp (assertSizes lp) := by
  simp [assertSizes, Allowed, Layout.loopOf]

theorem insert_keeps (lp : Loop) : KeepsTo l lp (insert lp) := by
  simp [insert, assertSizes_keeps, Allowed, Layout.loopOf]

theorem cancelInLoop_keeps (lp : Loop) (q : TimerQueue) (timer : ActiveTimer) :
    KeepsTo l lp (cancelInLoop lp q timer) := by
  rw [cancelInLoop]
  cases q.activeTimers.find? timer.key with
  | none =>
    cases q.callingExpiredTimers <;> simp [assertSizes_keeps, Allowed, Layout.loopOf]
  | some it => simp [assertSizes_keeps, Allowed, Layout.loopOf]

theorem resetOne_keeps (lp : Loop) (q : TimerQueue) (entry : Ptr × Timer) :
    KeepsTo l lp (resetOne lp q entry) := by
  rw [resetOne]
  split
  · refine Keeps.cons_iff.mpr ⟨rfl, ?_⟩
    split
    · exact insert_keeps lp
    · exact .nil
  · exact .nil

theorem reset_keeps (lp : Loop) (q : TimerQueue) (expired : List (Ptr × Timer)) :
    KeepsTo l lp (reset lp q expired) := by
  refine Keeps.append_iff.mpr ⟨.flatMap expired (resetOne_keeps lp q), ?_⟩
  cases q.timers.first? <;> simp [Allowed, Layout.loopOf]

theorem getExpired_keeps (lp : Loop) (expired : List (Ptr × Timer)) :
    KeepsTo l lp (getExpired lp expired) := by
  have htimers : KeepsTo l lp
      [.access (.timers lp), .access (.timers lp), .access (.timers lp)] := by
    simp [Allowed, Layout.loopOf]
  exact Keeps.append_iff.mpr ⟨Keeps.append_iff.mpr ⟨htimers, .map expired fun _ => rfl⟩,
    assertSizes_keeps lp⟩

/-- The callbacks of timers are at home nowhere. -/
theorem timerHandleRead_keeps (lp : Loop) (q : TimerQueue) (expired : List (Ptr × Timer)) :
    KeepsTo l lp (timerHandleRead lp q expired) := by
  have hcalls : KeepsTo l lp (expired.map fun _ => .call .timerCallback) :=
    .map expired fun _ => Callable.of_none rfl
  exact Keeps.append_iff.mpr ⟨Keeps.append_iff.mpr ⟨getExpired_keeps lp expired,
    Keeps.cons_iff.mpr ⟨rfl, hcalls⟩⟩, reset_keeps lp q expired⟩

/-! ### The connections -/

theorem queueWriteCb_keeps (c : TcpConnection) :
    KeepsTo l (l.lp_ c.this) (queueWriteCb l c) := by
  rw [queueWriteCb]
  split
  · exact Keeps.cons_iff.mpr ⟨Callable.of_none rfl, .nil⟩
  · exact .nil

theorem handleClose_keeps (c : TcpConnection) : KeepsTo l (l.lp_ c.this) (handleClose l c) := by
  rw [handleClose]
  split
  · exact Keeps.append_iff.mpr ⟨update_keeps (.conn c.this) _,
      Keeps.cons_iff.mpr ⟨Callable.of_none rfl, .nil⟩⟩
  · exact Keeps.cons_iff.mpr ⟨trivial, .nil⟩

theorem handleRead_keeps (c : TcpConnection) (result : Option Bytes) :
    KeepsTo l (l.lp_ c.this) (handleRead l c result) := by
  refine Keeps.cons_iff.mpr ⟨rfl, ?_⟩
  match result with
  | none => exact .nil
  | some [] => exact handleClose_keeps c
  | some (x :: data) =>
    refine Keeps.cons_iff.mpr ⟨?_, .nil⟩
    intro lp hlp
    exact hlp

theorem handleWrite_keeps (c : TcpConnection) (result : Option Nat) :
    KeepsTo l (l.lp_ c.this) (handleWrite l c result) := by
  have hupdate : KeepsTo l (l.lp_ c.this) (disableWriting l c) := update_keeps (.conn c.this) _
  have hbuffer : KeepsTo l (l.lp_ c.this)
      [.access (.outputBuffer c.this), .access (.outputBuffer c.this)] := by
    simp [Allowed, Layout.loopOf]
  unfold handleWrite
  split
  · refine Keeps.append_iff.mpr ⟨hbuffer, ?_⟩
    split
    · exact .nil
    · exact .nil
    · refine Keeps.append_iff.mpr ⟨hbuffer, ?_⟩
      split
      · exact Keeps.cons_iff.mpr ⟨trivial, .nil⟩
      · split
        · refine Keeps.append_iff.mpr
            ⟨Keeps.append_iff.mpr ⟨hupdate, queueWriteCb_keeps c⟩, ?_⟩
          split <;> exact .nil
        · exact .nil
  · exact .nil

theorem sendInLoop_keeps (c : TcpConnection) (msg : Bytes) (result : Option Nat) :
    KeepsTo l (l.lp_ c.this) (sendInLoop l c msg result) := by
  have hupdate : KeepsTo l (l.lp_ c.this) (enableWriting l c) := update_keeps (.conn c.this) _
  unfold sendInLoop
  generalize (!c.isWriting && c.outputBuffer.readableBytes == 0) = direct
  dsimp only
  generalize (if direct then result.getD 0 else 0) = n
  refine Keeps.append_iff.mpr ⟨Keeps.append_iff.mpr ⟨?_, ?_⟩, ?_⟩
  · split <;> simp [Allowed, Layout.loopOf]
  · split
    · exact queueWriteCb_keeps c
    · exact .nil
  · split
    · refine Keeps.cons_iff.mpr ⟨rfl, ?_⟩
      split
      · exact .nil
      · exact hupdate
    · exact .nil

theorem callback_keeps (c : TcpConnection) (read : Option Bytes) (write : Option Nat)
    (cb : EventCallback) : KeepsTo l (l.lp_ c.this) (callback l c read write cb) := by
  cases cb with
  | closeCb => exact handleClose_keeps c
  | errorCb => exact .nil
  | readCb => exact handleRead_keeps c read
  | writeCb => exact handleWrite_keeps c write

theorem connectEstablished_keeps (c : TcpConnection) :
    KeepsTo l (l.lp_ c.this) (connectEstablished l c) := by
  rw [connectEstablished]
  split
  · exact Keeps.append_iff.mpr ⟨update_keeps (.conn c.this) _,
      Keeps.cons_iff.mpr ⟨Callable.of_none rfl, .nil⟩⟩
  · exact Keeps.cons_iff.mpr ⟨trivial, .nil⟩

theorem connectDestroyed_keeps (c : TcpConnection) :
    KeepsTo l (l.lp_ c.this) (connectDestroyed l c) :=
  Keeps.append_iff.mpr ⟨update_keeps (.conn c.this) _,
    Keeps.cons_iff.mpr ⟨Callable.of_none rfl, removeHandler_keeps (.conn c.this)⟩⟩

/-! ### All functions -/

/-- Public calls are at home nowhere. -/
theorem applicationCb_keeps (h : Option Loop) (calls : List PublicCall) :
    Keeps l.loopOf l.home h (applicationCb calls) := .map calls fun _ => Callable.of_none rfl

theorem messageCb_keeps (conn : Nat) (steps : List (Option PublicCall)) :
    KeepsTo l (l.lp_ conn) (messageCb conn steps) := by
  refine .map steps fun step => ?_
  cases step with
  | none => rfl
  | some call => exact Callable.of_none rfl

theorem handleEvents_keeps (id : HandlerId) (revents : EventMask) :
    KeepsTo l (l.ownerLp id) (handleEvents id revents) := by
  refine .flatMap _ fun cb => ?_
  cases id with
  | conn conn => exact Keeps.cons_iff.mpr ⟨fun _ h => h, .nil⟩
  | wakeup lp => exact .nil
  | timerfd lp =>
    cases cb with
    | readCb => exact Keeps.cons_iff.mpr ⟨fun _ h => h, .nil⟩
    | closeCb | errorCb | writeCb => exact .nil
  | acceptor =>
    cases cb with
    | readCb => exact Keeps.cons_iff.mpr ⟨fun _ h => h, .nil⟩
    | closeCb | errorCb | writeCb => exact .nil

/-- What is at home on a loop can be handed to it. -/
theorem hop_keeps {h : Option Loop} {lp : Loop} (hf : l.home f = some lp) :
    Keeps l.loopOf l.home h [.runInLoop lp f] ∧ Keeps l.loopOf l.home h [.queueInLoop lp f] := by
  have hcall : Callable l.home (· = lp) f := by
    intro lp' hlp
    exact (Option.some.inj (hf.symm.trans hlp)).symm
  exact ⟨Keeps.cons_iff.mpr ⟨hcall, .nil⟩, Keeps.cons_iff.mpr ⟨hcall, .nil⟩⟩

/-- Every function uses what belongs to the loop it is at home on, and hands the rest over. -/
theorem course_keeps (h : Course l f ops) : Keeps l.loopOf l.home (l.home f) ops := by
  cases h with
  | loop lp stopLoop =>
    cases stopLoop <;> simp [loop, Allowed, Callable, Layout.loopOf, Layout.home]
  | handleEvents id revents => exact handleEvents_keeps id revents
  | callback c read write cb => exact callback_keeps c read write cb
  | timerHandleRead lp q expired => exact timerHandleRead_keeps lp q expired
  | addTimerInLoop lp => exact insert_keeps lp
  | cancelInLoop lp q timer => exact cancelInLoop_keeps lp q timer
  | acceptorHandleRead accepted =>
    cases accepted with
    | none => exact .nil
    | some conn =>
      rw [acceptorHandleRead, handleNewConnection]
      split
      · exact Keeps.cons_iff.mpr ⟨trivial, .nil⟩
      · exact (hop_keeps rfl).1
  | listen h => exact update_keeps .acceptor _
  | handleRemoveConnection conn => exact (hop_keeps rfl).1
  | handleRemoveConnectionInLoop conn erased =>
    cases erased with
    | false => exact Keeps.cons_iff.mpr ⟨trivial, .nil⟩
    | true => exact (hop_keeps rfl).2
  | connectEstablished c => exact connectEstablished_keeps c
  | connectDestroyed c => exact connectDestroyed_keeps c
  | handleClose c => exact handleClose_keeps c
  | sendInLoop c msg result => exact sendInLoop_keeps c msg result
  | shutdownInLoop conn => exact .nil
  | connCb conn calls | writeCb conn calls | timerCallback calls =>
    exact applicationCb_keeps _ calls
  | messageCb conn steps => exact messageCb_keeps conn steps
  | start listening =>
    cases listening with
    | true => exact .nil
    | false => exact (hop_keeps rfl).1
  | send c | shutdown c | forceClose c =>
    simp only [send, shutdown, forceClose]
    split
    · exact (hop_keeps rfl).1
    · exact .nil
  | runAt lp | runAfter lp | runEvery lp | cancel lp => exact (hop_keeps rfl).1

theorem confined (tid : Loop → T) (l : Layout) : (serverLoops tid l).Confined l.home where
  entry t f h := by
    cases h with
    | loop lp =>
      intro lp' hlp
      exact congrArg tid (Option.some.inj hlp).symm
    | public_ t call => exact Callable.of_none rfl
  course _ _ h := course_keeps h
  handlers lp := by
    intro f hf lp' hlp
    simp only [serverLoops, List.mem_cons, List.not_mem_nil, or_false] at hf
    rcases hf with rfl | rfl <;> exact (Option.some.inj hlp).symm

/-- **One loop per thread.** -/
theorem loop_data_confined [DecidableEq T] (tid : Loop → T) (l : Layout)
    {s : LoopState T Loop ServerFunction Unlocked}
    {as : List (LoopStep T Loop ServerFunction Unlocked)} {answers : List (List (T × Unlocked))}
    (hadm : (serverLoops tid l).program.Admissible (serverLoops tid l).init as)
    (hrun : (serverLoops tid l).program.run (serverLoops tid l).init as = some (s, answers)) :
    ∀ accesses ∈ answers, ∀ a ∈ accesses, a.1 = tid (l.loopOf a.2) :=
  (confined tid l).accesses hadm hrun

/-- One worker loop, on thread `1`. -/
def exampleTid : Loop → Nat
  | .base => 0
  | .worker w => w + 1

def exampleLayout : Layout := ⟨1, fun _ => 0⟩

def exampleConn : TcpConnection := { TcpConnection.make 0 false with state := .connected }

/-- Thread `7` closes a connection, and its loop comes to it. -/
def closedFromOutside : List (LoopStep Nat Loop ServerFunction Unlocked) :=
  [.enter 7 (.public_ (.forceClose 0)), .next 7 (forceClose exampleLayout exampleConn), .next 7 [],
    .enter 1 (.loop (.worker 0)), .next 1 (loop false (.worker 0)), .next 1 [], .next 1 [],
    .next 1 [], .next 1 (handleClose exampleLayout exampleConn), .next 1 []]

theorem closedFromOutside_admissible : (serverLoops exampleTid exampleLayout).program.Admissible
    (serverLoops exampleTid exampleLayout).init closedFromOutside :=
  .cons ⟨rfl, .public_ 7 _⟩ rfl <|
  .cons ⟨_, rfl, .forceClose exampleConn⟩ rfl <|
  .cons ⟨_, rfl, trivial⟩ rfl <|
  .cons ⟨rfl, .loop (.worker 0)⟩ rfl <|
  .cons ⟨_, rfl, .loop (.worker 0) false⟩ rfl <|
  .cons ⟨_, rfl, trivial⟩ rfl <|
  .cons ⟨_, rfl, [], List.nil_subset _, rfl⟩ rfl <|
  .cons ⟨_, rfl, trivial⟩ rfl <|
  .cons ⟨_, rfl, .handleClose exampleConn⟩ rfl <|
  .cons ⟨_, rfl, trivial⟩ rfl trivial

/-- The poller is called by the thread of the loop. -/
theorem loop_data_confined_closed : ∃ s answers,
    (serverLoops exampleTid exampleLayout).program.run
      (serverLoops exampleTid exampleLayout).init closedFromOutside = some (s, answers) ∧
    [(1, .updateHandler (.worker 0))] ∈ answers ∧
    ∀ accesses ∈ answers, ∀ a ∈ accesses, a.1 = exampleTid (exampleLayout.loopOf a.2) := by
  have hrun : ∃ r ∈ (serverLoops exampleTid exampleLayout).program.run
      (serverLoops exampleTid exampleLayout).init closedFromOutside,
      [(1, .updateHandler (.worker 0))] ∈ r.2 := ⟨_, rfl, by decide⟩
  obtain ⟨⟨s, answers⟩, hrun, hmem⟩ := hrun
  exact ⟨s, answers, hrun, hmem,
    loop_data_confined exampleTid exampleLayout closedFromOutside_admissible hrun⟩

end Threads
end Httpancake
