import Httpancake.Lib.Program
import Mathlib.Control.Basic
import Mathlib.Data.Option.Basic
import Mathlib.Data.List.Nodup
import Mathlib.Logic.Function.Basic
import Mathlib.Tactic.SplitIfs

/-! # Idle connections

`connBuckets_` is a circular buffer of sets of entries. A connection gets an entry in the newest set
when it is established, and again with every message; every tick drops the oldest set, and an entry
that is in no set any more shuts its connection down as it goes.

The code has neither `idle` nor `shutdowns`: `exec` counts the ticks since the actions that are to
insert an entry, whatever the buckets then hold, and records what was shut down.
`idle_timeout_exact` says that an entry lives as long as this count is below `expiredSec_`. -/

namespace Httpancake

/-- A set of entries, each named by its connection. -/
abbrev Bucket := List Nat

structure IdleTimeout where
  expiredSec : Nat
  /-- From `back()` on: the newest bucket is the head. -/
  connBuckets : List Bucket
  /-- The connections whose context holds a weak pointer to an entry. -/
  context : Nat → Bool
  /-- The connections that exist. -/
  live : Nat → Bool
  /-- The ticks since `onConnection`, or since the last `onMessage` that found the entry alive. -/
  idle : Nat → Option Nat
  /-- Every call of `shutdown` so far. -/
  shutdowns : List Nat

inductive IdleAction where
  | onTimer
  | onConnection (conn : Nat)
  | onMessage (conn : Nat)
  /-- The connection object goes. -/
  | destroy (conn : Nat)
deriving DecidableEq, Repr

namespace IdleTimeout

/-- The constructor of `webServer`: `connBuckets_` is full of empty buckets. -/
def init (expiredSec : Nat) : IdleTimeout where
  expiredSec := expiredSec
  connBuckets := List.replicate expiredSec []
  context := fun _ => false
  live := fun _ => false
  idle := fun _ => none
  shutdowns := []

/-- `weak_ptr::lock` on the entry of a connection succeeds: some bucket holds it. -/
def alive (s : IdleTimeout) (conn : Nat) : Bool := s.connBuckets.any (conn ∈ ·)

/-- The elements that stay after a `push_back`: on a full buffer the oldest one goes. -/
def kept (capacity : Nat) (buckets : List Bucket) : List Bucket :=
  if buckets.length = capacity then buckets.dropLast else buckets

def pushBack (capacity : Nat) (buckets : List Bucket) (bucket : Bucket) : List Bucket :=
  bucket :: kept capacity buckets

/-- The element that goes. -/
def dropped (capacity : Nat) (buckets : List Bucket) : Bucket :=
  if buckets.length = capacity then buckets.getLast?.getD [] else []

/-- `connBuckets_.back().insert(entryPtr)` -/
def insertBack (s : IdleTimeout) (conn : Nat) : IdleTimeout :=
  { s with
    connBuckets := match s.connBuckets with
      | [] => []
      | bucket :: buckets => bucket.insert conn :: buckets }

/-- `connBuckets_.push_back(Bucket())` -/
def onTimer (s : IdleTimeout) : IdleTimeout :=
  { s with connBuckets := pushBack s.expiredSec s.connBuckets [] }

/-- The entries that no bucket holds after a tick run their destructors, which shut down those
connections that still exist. -/
def expired (s : IdleTimeout) : List Nat :=
  (dropped s.expiredSec s.connBuckets).filter fun conn => !s.onTimer.alive conn && s.live conn

def onConnection (s : IdleTimeout) (conn : Nat) : IdleTimeout :=
  { s.insertBack conn with
    context := Function.update s.context conn true
    live := Function.update s.live conn true }

def onMessage (s : IdleTimeout) (conn : Nat) : Option IdleTimeout := do
  guard (s.context conn)
  return if s.alive conn then s.insertBack conn else s

/-- A connection is established once, and only one that exists gets messages. -/
def Pre (s : IdleTimeout) : IdleAction → Prop
  | .onTimer => True
  | .onConnection conn => s.context conn = false
  | .onMessage conn | .destroy conn => s.live conn

/-- What the code does, and the calls of `shutdown`. -/
def code (s : IdleTimeout) : IdleAction → Option (IdleTimeout × List Nat)
  | .onTimer => some (s.onTimer, s.expired)
  | .onConnection conn => some (s.onConnection conn, [])
  | .onMessage conn => (s.onMessage conn).map (·, [])
  | .destroy conn => some ({ s with live := Function.update s.live conn false }, [])

/-- The ticks that are counted after an action. -/
def count (s : IdleTimeout) : IdleAction → Nat → Option Nat
  | .onTimer => fun conn => (s.idle conn).map (· + 1)
  | .onConnection conn => Function.update s.idle conn (some 0)
  | .onMessage conn => if s.alive conn then Function.update s.idle conn (some 0) else s.idle
  | .destroy _ => s.idle

/-- The state of the code after an action, with what is counted of it. -/
def record (s s' : IdleTimeout) (a : IdleAction) (shut : List Nat) : IdleTimeout :=
  { s' with idle := s.count a, shutdowns := s.shutdowns ++ shut }

/-- The answer is the calls of `shutdown`. -/
def exec (s : IdleTimeout) (a : IdleAction) : Option (IdleTimeout × List Nat) :=
  (s.code a).map fun (s', shut) => (s.record s' a shut, shut)

abbrev program : Program IdleTimeout IdleAction (List Nat) where
  pre := Pre
  exec := exec

/-! ## Where the entries are -/

/-- The newest bucket that holds an entry is as many buckets from the back as its connection is
idle. -/
structure Inv (s : IdleTimeout) : Prop where
  full : s.connBuckets.length = s.expiredSec
  nodup : ∀ bucket ∈ s.connBuckets, bucket.Nodup
  held : ∀ i bucket, s.connBuckets[i]? = some bucket → ∀ conn ∈ bucket,
    ∃ k ≤ i, s.idle conn = some k
  newest : ∀ conn k, s.idle conn = some k → k < s.expiredSec →
    ∃ bucket, s.connBuckets[k]? = some bucket ∧ conn ∈ bucket
  known : ∀ conn, s.context conn ↔ s.idle conn ≠ none
  exists_ : ∀ conn, s.live conn → s.context conn
  once : s.shutdowns.Nodup
  shut : ∀ conn ∈ s.shutdowns, ∃ k, s.idle conn = some k ∧ s.expiredSec ≤ k

namespace Inv
variable {s : IdleTimeout} {conn : Nat}

theorem init (expiredSec : Nat) : (IdleTimeout.init expiredSec).Inv where
  full := List.length_replicate
  nodup bucket h := by
    rw [List.eq_of_mem_replicate h]
    exact List.nodup_nil
  held i bucket h conn hconn := by
    have hmem := List.mem_of_getElem? h
    rw [List.eq_of_mem_replicate hmem] at hconn
    exact absurd hconn List.not_mem_nil
  newest _ _ h := nomatch h
  known _ := by simp [IdleTimeout.init]
  exists_ _ h := nomatch h
  once := List.nodup_nil
  shut _ h := absurd h List.not_mem_nil

theorem alive_iff (h : s.Inv) : s.alive conn ↔ ∃ k, s.idle conn = some k ∧ k < s.expiredSec := by
  simp only [alive, List.any_eq_true, decide_eq_true_eq]
  constructor
  · intro ⟨bucket, hbucket, hconn⟩
    obtain ⟨i, hi⟩ := List.getElem?_of_mem hbucket
    obtain ⟨k, hk, hidle⟩ := h.held i bucket hi conn hconn
    have hlt := (List.getElem?_eq_some_iff.mp hi).1
    rw [h.full] at hlt
    exact ⟨k, hidle, Nat.lt_of_le_of_lt hk hlt⟩
  · intro ⟨k, hidle, hk⟩
    obtain ⟨bucket, hbucket, hconn⟩ := h.newest conn k hidle hk
    exact ⟨bucket, List.mem_of_getElem? hbucket, hconn⟩

/-- An insertion makes an entry the newest; its connection may come to exist. -/
theorem inserted {t : IdleTimeout} (h : s.Inv) (hpos : 0 < s.expiredSec)
    (hshut : conn ∉ s.shutdowns) (hsec : t.expiredSec = s.expiredSec)
    (hins : t.connBuckets = (s.insertBack conn).connBuckets)
    (hidle : t.idle = Function.update s.idle conn (some 0))
    (hshuts : t.shutdowns = s.shutdowns) (hcontext : ∀ c, t.context c ↔ c = conn ∨ s.context c)
    (hlive : ∀ c, t.live c → t.context c) : t.Inv := by
  obtain ⟨back, buckets, hbuckets⟩ := List.exists_cons_of_length_pos (h.full ▸ hpos)
  replace hins : t.connBuckets = back.insert conn :: buckets := by
    simp [hins, insertBack, hbuckets]
  refine ⟨?_, ?_, ?_, ?_, ?_, hlive, hshuts ▸ h.once, ?_⟩
  · have hfull := h.full
    rw [hbuckets] at hfull
    rw [hins, hsec]
    exact hfull
  · have hnodup := h.nodup
    rw [hbuckets, List.forall_mem_cons] at hnodup
    rw [hins]
    exact List.forall_mem_cons.mpr ⟨List.Nodup.insert hnodup.1, hnodup.2⟩
  · intro i bucket hi c hc
    simp only [hins, hidle, Function.update_apply] at hi ⊢
    split_ifs with hcc
    · exact ⟨0, Nat.zero_le i, rfl⟩
    · cases i with
      | zero =>
        cases hi
        have hc : c ∈ back := (List.mem_insert_iff.mp hc).resolve_left hcc
        exact h.held 0 back (by rw [hbuckets]; rfl) c hc
      | succ i => exact h.held (i + 1) bucket (by rw [hbuckets]; exact hi) c hc
  · intro c k hk hlt
    rw [hsec] at hlt
    simp only [hins, hidle, Function.update_apply] at hk ⊢
    split_ifs at hk with hcc
    · cases hk
      exact ⟨_, rfl, List.mem_insert_iff.mpr (.inl hcc)⟩
    · obtain ⟨bucket, hbucket, hc⟩ := h.newest c k hk hlt
      rw [hbuckets] at hbucket
      cases k with
      | zero =>
        cases hbucket
        exact ⟨_, rfl, List.mem_insert_of_mem hc⟩
      | succ k => exact ⟨bucket, hbucket, hc⟩
  · intro c
    simp only [hidle, Function.update_apply, hcontext]
    split_ifs with hcc
    · exact iff_of_true (.inl hcc) nofun
    · rw [or_iff_right hcc]
      exact h.known c
  · intro c hc
    rw [hshuts] at hc
    simp only [hidle, hsec, Function.update_of_ne (fun heq : c = conn => hshut (heq ▸ hc))]
    exact h.shut c hc

/-- A bucket is one place older after a tick, and the oldest is gone. -/
theorem buckets_onTimer (h : s.Inv) (hpos : 0 < s.expiredSec) :
    ∃ buckets oldest, s.connBuckets = buckets ++ [oldest] ∧
      buckets.length + 1 = s.expiredSec ∧ s.onTimer.connBuckets = [] :: buckets ∧
      dropped s.expiredSec s.connBuckets = oldest := by
  obtain ⟨buckets, oldest, hbuckets⟩ := (List.eq_nil_or_concat s.connBuckets).resolve_left
    (List.ne_nil_of_length_pos (h.full ▸ hpos))
  rw [List.concat_eq_append] at hbuckets
  have hfull := h.full
  rw [hbuckets, List.length_append, List.length_singleton] at hfull
  refine ⟨buckets, oldest, hbuckets, hfull, ?_, ?_⟩
  · simp [IdleTimeout.onTimer, pushBack, kept, hbuckets, hfull]
  · simp [dropped, hbuckets, hfull]

/-- A tick that has not shut down anything yet. -/
theorem rotated (h : s.Inv) (hpos : 0 < s.expiredSec) : (s.record s.onTimer .onTimer []).Inv := by
  obtain ⟨buckets, oldest, hbuckets, hlen, hnew, -⟩ := h.buckets_onTimer hpos
  have hnew : (s.record s.onTimer .onTimer []).connBuckets = [] :: buckets := hnew
  have hidle : ∀ c, (s.record s.onTimer .onTimer []).idle c = (s.idle c).map (· + 1) := fun _ => rfl
  have hshuts : (s.record s.onTimer .onTimer []).shutdowns = s.shutdowns := List.append_nil _
  refine ⟨?_, ?_, ?_, ?_, ?_, h.exists_, hshuts ▸ h.once, ?_⟩
  · rw [hnew]
    exact hlen
  · have hnodup := h.nodup
    rw [hbuckets, List.forall_mem_append] at hnodup
    rw [hnew]
    exact List.forall_mem_cons.mpr ⟨List.nodup_nil, hnodup.1⟩
  · intro i bucket hi c hc
    rw [hnew] at hi
    cases i with
    | zero =>
      cases hi
      exact absurd hc List.not_mem_nil
    | succ i =>
      have hi : buckets[i]? = some bucket := hi
      have hi : s.connBuckets[i]? = some bucket := by
        rw [hbuckets, List.getElem?_append_left (List.getElem?_eq_some_iff.mp hi).1, hi]
      obtain ⟨k, hk, hidlek⟩ := h.held i bucket hi c hc
      exact ⟨k + 1, Nat.succ_le_succ hk, by rw [hidle, hidlek]; rfl⟩
  · intro c k hk hlt
    rw [hidle] at hk
    obtain ⟨j, hj, rfl⟩ := Option.map_eq_some_iff.mp hk
    have hlt : j + 1 < s.expiredSec := hlt
    obtain ⟨bucket, hbucket, hc⟩ := h.newest c j hj (Nat.lt_of_succ_lt hlt)
    rw [hbuckets, List.getElem?_append_left (by omega)] at hbucket
    exact ⟨bucket, by rw [hnew]; exact hbucket, hc⟩
  · intro c
    rw [hidle, ne_eq, Option.map_eq_none_iff]
    exact h.known c
  · intro c hc
    rw [hshuts] at hc
    obtain ⟨k, hk, hle⟩ := h.shut c hc
    exact ⟨k + 1, by rw [hidle, hk]; rfl, Nat.le_succ_of_le hle⟩

/-- The entries that a tick ends are those inserted `expiredSec_` ticks ago. -/
theorem mem_expired (h : s.Inv) (hpos : 0 < s.expiredSec) :
    conn ∈ s.expired ↔ s.idle conn = some (s.expiredSec - 1) ∧ s.live conn := by
  obtain ⟨buckets, oldest, hbuckets, hlen, hnew, hdropped⟩ := h.buckets_onTimer hpos
  have hlast : s.connBuckets[s.expiredSec - 1]? = some oldest := by
    have hindex : s.expiredSec - 1 = buckets.length := by omega
    rw [hbuckets, hindex, List.getElem?_concat_length]
  have halive : s.onTimer.alive conn ↔
      ∃ k, (s.idle conn).map (· + 1) = some k ∧ k < s.expiredSec := (h.rotated hpos).alive_iff
  rw [expired, hdropped, List.mem_filter, Bool.and_eq_true, Bool.not_eq_true',
    ← Bool.not_eq_true, halive, ← and_assoc]
  apply and_congr_left
  intro _
  constructor
  · intro ⟨hmem, hgone⟩
    obtain ⟨k, hk, hidlek⟩ := h.held _ oldest hlast conn hmem
    have hge : s.expiredSec ≤ k + 1 := by
      by_contra hlt
      exact hgone ⟨k + 1, by rw [hidlek]; rfl, Nat.lt_of_not_le hlt⟩
    have hkeq : k = s.expiredSec - 1 := by omega
    rw [hidlek, hkeq]
  · intro hidlek
    obtain ⟨bucket, hbucket, hmem⟩ := h.newest conn _ hidlek (by omega)
    rw [hlast] at hbucket
    cases hbucket
    refine ⟨hmem, ?_⟩
    intro ⟨k, hk, hlt⟩
    rw [hidlek] at hk
    obtain rfl : s.expiredSec - 1 + 1 = k := Option.some.inj hk
    omega

theorem nodup_expired (h : s.Inv) (hpos : 0 < s.expiredSec) : s.expired.Nodup := by
  obtain ⟨buckets, oldest, hbuckets, -, -, hdropped⟩ := h.buckets_onTimer hpos
  rw [expired, hdropped]
  apply List.Nodup.filter
  apply h.nodup
  rw [hbuckets]
  exact List.mem_append_right _ List.mem_cons_self

theorem onTimer (h : s.Inv) (hpos : 0 < s.expiredSec) :
    (s.record s.onTimer .onTimer s.expired).Inv := by
  have hrotated := h.rotated hpos
  refine ⟨hrotated.full, hrotated.nodup, hrotated.held, hrotated.newest, hrotated.known,
    hrotated.exists_, ?_, ?_⟩
  · apply h.once.append (h.nodup_expired hpos)
    intro c hc hexp
    obtain ⟨k, hk, hle⟩ := h.shut c hc
    rw [((h.mem_expired hpos).mp hexp).1] at hk
    cases hk
    omega
  · intro c hc
    rcases List.mem_append.mp hc with hc | hc
    · exact hrotated.shut c (List.mem_append_left _ hc)
    · refine ⟨s.expiredSec - 1 + 1, ?_, Nat.le_of_eq (Nat.sub_add_cancel hpos).symm⟩
      change (s.idle c).map (· + 1) = _
      rw [((h.mem_expired hpos).mp hc).1]
      rfl

/-- An entry that lives was never shut down for. -/
theorem not_mem_shutdowns (h : s.Inv) (halive : s.alive conn) : conn ∉ s.shutdowns := by
  intro hmem
  obtain ⟨k, hk, hlt⟩ := h.alive_iff.mp halive
  obtain ⟨k', hk', hle⟩ := h.shut conn hmem
  rw [hk] at hk'
  cases hk'
  exact Nat.not_le_of_lt hlt hle

/-- A message finds a context, and inserts the entry if it lives. -/
theorem code_onMessage (h : s.Inv) (hlive : s.live conn) :
    s.code (.onMessage conn) = some (if s.alive conn then s.insertBack conn else s, []) := by
  have hcontext := h.exists_ conn hlive
  simp [code, IdleTimeout.onMessage, hcontext]

theorem onMessage (h : s.Inv) (hpos : 0 < s.expiredSec) (hlive : s.live conn) :
    (s.record (if s.alive conn then s.insertBack conn else s) (.onMessage conn) []).Inv := by
  by_cases halive : s.alive conn
  · refine h.inserted hpos (h.not_mem_shutdowns halive) ?_ ?_ ?_ (List.append_nil _) ?_ ?_
    · rw [if_pos halive]
      rfl
    · rw [record, if_pos halive]
    · exact if_pos halive
    · intro c
      rw [record, if_pos halive]
      exact ⟨.inr, fun hc => hc.elim (fun heq => heq ▸ h.exists_ conn hlive) id⟩
    · rw [record, if_pos halive]
      exact h.exists_
  · have hsame : s.record s (.onMessage conn) [] = s := by
      rw [record, count, if_neg halive, List.append_nil]
    rw [if_neg halive, hsame]
    exact h

/-- A new connection has no entry yet. -/
theorem onConnection (h : s.Inv) (hpos : 0 < s.expiredSec) (hnew : s.context conn = false) :
    (s.record (s.onConnection conn) (.onConnection conn) []).Inv := by
  have hidle : s.idle conn = none := by
    by_contra hne
    rw [(h.known conn).mpr hne] at hnew
    cases hnew
  refine h.inserted hpos (fun hmem => ?_) rfl rfl rfl (List.append_nil _) (fun c => ?_)
    fun c => ?_
  · obtain ⟨k, hk, -⟩ := h.shut conn hmem
    rw [hidle] at hk
    cases hk
  · simp only [record, IdleTimeout.onConnection, Function.update_apply]
    split_ifs with hcc
    · exact iff_of_true rfl (.inl hcc)
    · exact ⟨.inr, fun h => h.resolve_left hcc⟩
  · simp only [record, IdleTimeout.onConnection, Function.update_apply]
    split_ifs
    · exact id
    · exact h.exists_ c

end Inv

/-- What the code keeps, and what it shuts down. -/
theorem code_spec {s s' : IdleTimeout} {a : IdleAction} {shut : List Nat}
    (h : s.code a = some (s', shut)) :
    s'.expiredSec = s.expiredSec ∧ shut = if a = .onTimer then s.expired else [] := by
  cases a with
  | onTimer | onConnection | destroy =>
    cases h
    exact ⟨rfl, rfl⟩
  | onMessage conn =>
    obtain ⟨s₁, h₁, h⟩ := Option.map_eq_some_iff.mp h
    cases h
    obtain ⟨-, -, h₁⟩ := Option.bind_eq_some_iff.mp h₁
    cases h₁
    refine ⟨?_, rfl⟩
    split_ifs <;> rfl

/-- One step. -/
theorem Inv.exec {s : IdleTimeout} {a : IdleAction} (h : s.Inv) (hpos : 0 < s.expiredSec)
    (hpre : s.Pre a) :
    ∃ s' shut, s.code a = some (s', shut) ∧ (s.record s' a shut).Inv := by
  cases a with
  | onTimer => exact ⟨_, _, rfl, h.onTimer hpos⟩
  | onConnection conn => exact ⟨_, _, rfl, h.onConnection hpos hpre⟩
  | onMessage conn => exact ⟨_, _, h.code_onMessage hpre, h.onMessage hpos hpre⟩
  | destroy conn =>
    refine ⟨_, _, rfl, h.full, h.nodup, h.held, h.newest, h.known, fun c hc => ?_, ?_, ?_⟩
    · simp only [record, Function.update_apply] at hc
      split_ifs at hc
      exact h.exists_ c hc
    · exact (List.append_nil s.shutdowns).symm ▸ h.once
    · exact fun c hc => h.shut c (by rwa [← List.append_nil s.shutdowns])

theorem preserves (n : Nat) (hpos : 0 < n) :
    program.Preserves fun s => s.Inv ∧ s.expiredSec = n := by
  intro s a s' shut ⟨h, hn⟩ hpre hexec
  have hexec : (s.code a).map (fun (s', shut) => (s.record s' a shut, shut)) = some (s', shut) :=
    hexec
  obtain ⟨s₁, shut₁, hcode, h₁⟩ := h.exec (hn ▸ hpos) hpre
  rw [hcode] at hexec
  cases hexec
  exact ⟨h₁, (code_spec hcode).1.trans hn⟩

/-- The action is to insert the entry of the connection. -/
def Inserts (s : IdleTimeout) (conn : Nat) (a : IdleAction) : Prop :=
  a = .onConnection conn ∨ a = .onMessage conn ∧ s.alive conn

/-- **The idle timeout.** In every reachable state an entry lives exactly while its connection has
been idle for fewer than `expiredSec_` ticks; every step succeeds, and calls `shutdown` exactly for
the existing connections that it makes idle for `expiredSec_` ticks; the actions that are to insert
an entry leave it alive and its connection not idle, a tick makes every connection idle for one
more tick, and nothing else changes how long a connection is idle; no connection is shut down
twice, and a message changes nothing once the entry is gone. -/
theorem idle_timeout_exact {n : Nat} (hpos : 0 < n) {s : IdleTimeout}
    (hs : program.Reachable (init n) s) :
    (∀ conn, s.alive conn ↔ ∃ k, s.idle conn = some k ∧ k < n) ∧
      (∀ a, s.Pre a → ∃ s' shut, s.exec a = some (s', shut) ∧
        s'.shutdowns = s.shutdowns ++ shut ∧
        (∀ conn, conn ∈ shut ↔ a = .onTimer ∧ s.idle conn = some (n - 1) ∧ s.live conn) ∧
        ∀ conn, (s.Inserts conn a → s'.alive conn ∧ s'.idle conn = some 0) ∧
          (a = .onTimer → s'.idle conn = (s.idle conn).map (· + 1)) ∧
          (¬ s.Inserts conn a → a ≠ .onTimer → s'.idle conn = s.idle conn)) ∧
      s.shutdowns.Nodup ∧
      ∀ conn, s.live conn → s.alive conn = false → s.exec (.onMessage conn) = some (s, []) := by
  obtain ⟨h, hn⟩ := hs.invariant (preserves n hpos) ⟨.init n, rfl⟩
  subst hn
  refine ⟨fun _ => h.alive_iff, fun a hpre => ?_, h.once, fun conn hlive hgone => ?_⟩
  · obtain ⟨s', shut, hcode, h'⟩ := h.exec hpos hpre
    obtain ⟨hsec, hshut⟩ := code_spec hcode
    refine ⟨_, shut, by rw [exec, hcode]; rfl, rfl, fun conn => ?_, fun conn => ⟨?_, ?_, ?_⟩⟩
    · rw [hshut, ← h.mem_expired hpos]
      split_ifs with ha
      · rw [and_iff_right ha]
      · exact iff_of_false List.not_mem_nil fun hc => ha hc.1
    · intro hins
      have hidle : (s.record s' a shut).idle conn = some 0 := by
        rcases hins with rfl | ⟨rfl, halive⟩
        · simp [record, count]
        · simp [record, count, halive]
      exact ⟨h'.alive_iff.mpr ⟨0, hidle, hsec.symm ▸ hpos⟩, hidle⟩
    · rintro rfl
      rfl
    · intro hins hne
      simp only [record]
      cases a with
      | onTimer => exact absurd rfl hne
      | onConnection c =>
        have hc : conn ≠ c := fun heq => hins (.inl (heq ▸ rfl))
        simp [count, Function.update_of_ne hc]
      | onMessage c =>
        rw [count]
        split_ifs with halive
        · have hc : conn ≠ c := by
            rintro rfl
            exact hins (.inr ⟨rfl, halive⟩)
          rw [Function.update_of_ne hc]
        · rfl
      | destroy c => rfl
  · simp [exec, h.code_onMessage hlive, record, count, hgone]

/-- A connection that is established and then silent for a tick is alive, and the next tick shuts
it down. -/
theorem idle_timeout_exact_one_tick :
    ∃ s, program.run (init 2) [.onConnection 7, .onTimer] = some (s, [[], []]) ∧
      s.idle 7 = some 1 ∧ s.alive 7 ∧
      ∃ s' shut, s.exec .onTimer = some (s', shut) ∧ 7 ∈ shut ∧ s'.idle 7 = some 2 := by
  refine ⟨_, rfl, rfl, ?_⟩
  obtain ⟨halive, hexec, -, -⟩ := idle_timeout_exact (n := 2) (by decide)
    ((Program.Reachable.start.next (.onConnection 7) rfl rfl).next .onTimer trivial rfl)
  obtain ⟨s', shut, hstep, -, hshut, hidle⟩ := hexec .onTimer trivial
  exact ⟨(halive 7).mpr ⟨1, rfl, by decide⟩, s', shut, hstep, (hshut 7).mpr ⟨rfl, rfl, rfl⟩,
    (hidle 7).2.1 rfl⟩

end IdleTimeout
end Httpancake
