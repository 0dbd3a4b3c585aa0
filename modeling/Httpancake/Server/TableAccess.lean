import Httpancake.Server.Ownership

/-! # Which thread touches the tables of the server

`connections_` and `connBuckets_` have no lock, and all that removes a connection hops to the base
loop. `connCb_` and `messageCb_` do not: a worker loop calls them where the connection lives, and
they use both tables. -/

namespace Httpancake

open Bytes TcpConnection

namespace WebServer
variable {cfg : ServerConfig} {s s' : WebServer} {w : Nat}

/-- The worker loops destroy no connection and, with the idle timeout, establish none and receive
nothing for one whose entry is alive. -/
def BaseOnly (cfg : ServerConfig) (s : WebServer) : ServerAction → Prop
  | .callback w read _ _ => cfg.Expires → ∀ e ∈ (s.workers w).callbacks.head?, e.2 = .readCb →
      (∃ data ∈ read, data ≠ []) → ¬ s.EntryAlive e.1
  | .call w => ∀ f ∈ (s.workers w).funcs.head?,
      match f with
      | .connectEstablished _ => ¬ cfg.Expires
      | .connectDestroyed _ => False
      | .shutdownInLoop _ => True
  | _ => True

instance (cfg : ServerConfig) (s : WebServer) (a : ServerAction) : Decidable (s.BaseOnly cfg a) :=
  match a with
  | .callback w read _ _ => inferInstanceAs (Decidable (cfg.Expires →
      ∀ e ∈ (s.workers w).callbacks.head?, e.2 = .readCb →
        (∃ data ∈ read, data ≠ []) → ¬ s.EntryAlive e.1))
  | .call w =>
    match h : (s.workers w).funcs.head? with
    | none => .isTrue (by simp [BaseOnly, h])
    | some (.connectEstablished conn) =>
      decidable_of_iff (¬ cfg.Expires) (by simp [BaseOnly, h])
    | some (.connectDestroyed conn) => .isFalse (by simp [BaseOnly, h])
    | some (.shutdownInLoop conn) => .isTrue (by simp [BaseOnly, h])
  | .basePoll | .accept | .onTimer _ | .destroyEntry | .baseSwap | .baseCall | .baseEnd | .poll _ _
  | .dispatch _ | .onMessage _ _ | .swap _ | .endBatch _ | .exit _ =>
    inferInstanceAs (Decidable True)

theorem forall_by {t : ServerThread} {tables : List SharedTable} :
    (∀ access ∈ by_ t tables, access.1 = .base) ↔ tables = [] ∨ t = .base := by
  cases tables with
  | nil => exact iff_of_true (List.forall_mem_nil _) (.inl rfl)
  | cons table tables =>
    simp only [by_, List.mem_map, forall_exists_index, and_imp, forall_apply_eq_imp_iff₂,
      reduceCtorEq, false_or]
    exact ⟨fun h => h table List.mem_cons_self, fun h _ _ => h⟩

theorem messageCb_mem_callback {c c' : TcpConnection} {es : List ConnEffect} {read : Option Bytes}
    {write : Option Nat} {cb : EventCallback} (h : c.callback read write cb = some (c', es)) :
    .messageCb ∈ es ↔ cb = .readCb ∧ ∃ data ∈ read, data ≠ [] := by
  constructor
  · intro hmem
    obtain ⟨rfl, x, data, b, rfl, -⟩ := callback_messageCb h hmem
    exact ⟨rfl, _, rfl, nofun⟩
  · rintro ⟨rfl, data, hdata, hne⟩
    obtain ⟨b, -, hspec⟩ := handleRead_spec h
    match read, data, hdata with
    | some (x :: data), _, _ =>
      rw [hspec.2]
      exact List.mem_singleton_self _
    | some [], _, rfl => exact absurd rfl hne

/-- `onMessage` uses the buckets if the entry is still alive. -/
theorem enterMessage_tables {conn : Nat} {fs : FileSystem} {tables : List SharedTable}
    (h : s.enterMessage cfg w conn fs = some (s', tables)) :
    tables = [] ↔ (cfg.Expires → ¬ s.EntryAlive conn) := by
  rw [enterMessage] at h
  split_ifs at h with hexpires hcontext halive
  · obtain ⟨connBuckets, -, heq⟩ := Option.map_eq_some_iff.mp h
    cases heq
    simp [hexpires, halive]
  · cases h
    simp [halive]
  · cases h
    simp [hexpires]

/-- `onConnection` uses one of the tables, unless there is no idle timeout and the connection is
up. -/
theorem onConnection_tables {conn : Nat} {tables : List SharedTable}
    (h : s.onConnection cfg conn = some (s', tables)) :
    tables = [] ↔ (s.conns conn).tcp.state = .connected ∧ ¬ cfg.Expires := by
  rw [onConnection] at h
  simp only [Option.bind_eq_bind, Option.pure_def] at h
  split_ifs at h with hstate hexpires
  · obtain ⟨connBuckets, -, heq⟩ := Option.bind_eq_some_iff.mp h
    cases heq
    simp [hexpires]
  · cases h
    exact iff_of_true rfl ⟨hstate, hexpires⟩
  · cases h
    simp [hstate]

theorem callback_tables {read : Option Bytes} {write : Option Nat} {fs : FileSystem}
    {tables : List SharedTable} (h : s.callback cfg w read write fs = some (s', tables)) :
    tables = [] ↔ s.BaseOnly cfg (.callback w read write fs) := by
  rw [callback] at h
  cases hcallbacks : (s.workers w).callbacks with
  | nil =>
    rw [hcallbacks] at h
    cases h
  | cons e callbacks =>
    obtain ⟨conn, cb⟩ := e
    rw [hcallbacks] at h
    simp only [Option.bind_eq_bind, Option.bind_eq_some_iff] at h
    obtain ⟨⟨tcp, es⟩, hcall, h⟩ := h
    have hmem := messageCb_mem_callback hcall
    simp only [BaseOnly, hcallbacks, List.head?_cons, Option.mem_some_iff, forall_eq']
    split_ifs at h with hmessage
    · rw [enterMessage_tables h]
      obtain ⟨hcb, hread⟩ := hmem.mp hmessage
      exact ⟨fun hno hexpires _ _ => hno hexpires, fun hno hexpires => hno hexpires hcb hread⟩
    · cases h
      refine iff_of_true rfl fun _ hcb hread => absurd (hmem.mpr ⟨hcb, hread⟩) hmessage

theorem call_tables {tables : List SharedTable} (h : s.call cfg w = some (s', tables)) :
    tables = [] ↔ s.BaseOnly cfg (.call w) := by
  rw [call] at h
  cases hfuncs : (s.workers w).funcs with
  | nil =>
    rw [hfuncs] at h
    cases h
  | cons f funcs =>
    rw [hfuncs] at h
    simp only [BaseOnly, hfuncs, List.head?_cons, Option.mem_some_iff, forall_eq']
    cases f with
    | connectEstablished conn =>
      simp only [runFunctor, Option.bind_eq_bind, Option.bind_eq_some_iff] at h
      obtain ⟨⟨tcp, es⟩, hcall, h⟩ := h
      rw [onConnection_tables h, after_conns]
      exact and_iff_right (connectEstablished_spec hcall).2.1
    | connectDestroyed conn =>
      simp only [runFunctor, Option.bind_eq_bind, Option.bind_eq_some_iff] at h
      obtain ⟨⟨tcp, es⟩, hcall, h⟩ := h
      rw [onConnection_tables h, after_conns]
      refine iff_of_false (fun hup => ?_) id
      cases (connectDestroyed_spec hcall).1.symm.trans hup.1
    | shutdownInLoop conn =>
      simp only [runFunctor] at h
      split_ifs at h
      obtain rfl := congrArg Prod.snd (Option.some.inj h)
      exact iff_of_true rfl trivial

/-- What a step may do decides which thread touches the tables. -/
theorem exec_accesses {a : ServerAction} {accesses : List Access}
    (h : s.exec cfg a = some (s', accesses)) :
    (∀ access ∈ accesses, access.1 = .base) ↔ s.BaseOnly cfg a := by
  cases a with
  | callback w read write fs =>
    obtain ⟨⟨s₁, tables⟩, hcallback, heq⟩ := Option.map_eq_some_iff.mp h
    cases heq
    rw [forall_by, ← callback_tables hcallback]
    exact or_iff_left (by simp)
  | call w =>
    obtain ⟨⟨s₁, tables⟩, hcall, heq⟩ := Option.map_eq_some_iff.mp h
    cases heq
    rw [forall_by, ← call_tables hcall]
    exact or_iff_left (by simp)
  | accept =>
    obtain ⟨s₁, -, heq⟩ := Option.map_eq_some_iff.mp h
    cases heq
    exact iff_of_true (forall_by.mpr (.inr rfl)) trivial
  | onTimer | destroyEntry =>
    cases h
    exact iff_of_true (forall_by.mpr (.inr rfl)) trivial
  | baseCall =>
    rw [exec] at h
    cases hfuncs : s.base.funcs with
    | nil =>
      rw [hfuncs] at h
      cases h
    | cons conn funcs =>
      rw [hfuncs] at h
      obtain ⟨s₁, -, heq⟩ := Option.map_eq_some_iff.mp h
      cases heq
      exact iff_of_true (forall_by.mpr (.inr rfl)) trivial
  | dispatch w =>
    rw [exec] at h
    cases hqueue : (s.workers w).activeQueue with
    | nil =>
      rw [hqueue] at h
      cases h
    | cons e activeQueue =>
      rw [hqueue] at h
      cases h
      exact iff_of_true (List.forall_mem_nil _) trivial
  | onMessage w write =>
    obtain ⟨m, -, h⟩ := Option.bind_eq_some_iff.mp h
    obtain ⟨s₁, -, heq⟩ := Option.map_eq_some_iff.mp h
    cases heq
    exact iff_of_true (List.forall_mem_nil _) trivial
  | basePoll | baseSwap | baseEnd | poll | swap | endBatch =>
    cases h
    exact iff_of_true (List.forall_mem_nil _) trivial
  | exit => cases h

/-- **Who touches the tables.** All accesses of a run are by the base loop exactly when its worker
loops only do what leaves the tables alone. -/
theorem tables_on_base_iff (cfg : ServerConfig) {as : List ServerAction}
    {answers : List (List Access)} (hadm : (webServer cfg).Admissible (.init cfg) as)
    (hrun : (webServer cfg).run (.init cfg) as = some (s, answers)) :
    (∀ accesses ∈ answers, ∀ access ∈ accesses, access.1 = .base) ↔
      ((webServer cfg).restrict (BaseOnly cfg)).Admissible (.init cfg) as := by
  apply Program.forall_answers_iff _ hadm hrun
  intro s a s' accesses _ hexec
  exact exec_accesses hexec

/-- Without an idle timeout a connection is accepted and established. -/
theorem tables_on_base_iff_opened :
    ∃ s answers, (webServer exampleConfig).run (.init exampleConfig) opened = some (s, answers) ∧
      [(.base, .connections)] ∈ answers ∧
      ∀ accesses ∈ answers, ∀ access ∈ accesses, access.1 = .base := by
  have hrun : ∃ r ∈ (webServer exampleConfig).run (.init exampleConfig) opened,
      [(.base, .connections)] ∈ r.2 := by decide +kernel
  obtain ⟨⟨s, answers⟩, hrun, hmem⟩ := hrun
  exact ⟨s, answers, hrun, hmem,
    (tables_on_base_iff exampleConfig (by decide +kernel) hrun).mpr (by decide +kernel)⟩

/-- With an idle timeout, a worker loop uses one table when it establishes a connection and the
other when it destroys it. -/
theorem tables_on_worker :
    ∃ as s answers, (webServer exampleExpires).Admissible (.init exampleExpires) as ∧
      (webServer exampleExpires).run (.init exampleExpires) as = some (s, answers) ∧
      [(.worker 0, .connBuckets)] ∈ answers ∧ [(.worker 0, .connections)] ∈ answers := by
  have hrun : ∃ r ∈ (webServer exampleExpires).run (.init exampleExpires)
      (opened ++ peerClosed ++ [.swap 0, .call 0]),
      [(.worker 0, .connBuckets)] ∈ r.2 ∧ [(.worker 0, .connections)] ∈ r.2 := by decide +kernel
  obtain ⟨⟨s, answers⟩, hrun, hmem⟩ := hrun
  exact ⟨_, s, answers, by decide +kernel, hrun, hmem⟩

end WebServer
end Httpancake
