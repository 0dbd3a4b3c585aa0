import Httpancake.Lib.Bytes

/-! # Lexical path resolution

A path is cut at its slashes into segments, and the segments move a stack of names: an empty segment
and `.` stay, `..` leaves a directory, and any other segment enters one.

* `segments`, `resolve`, `normalise`: the resolution of an absolute path.
* `climb`, `resolve_eq`: a relative path leaves some directories and then enters others, whatever
  the stack.
* `Directory`, `within_iff`: lying under a directory, as a text and as a list of names. -/

namespace Httpancake.Bytes

def SLASH : UInt8 := 47

/-- The texts between the slashes. -/
def segments : Bytes → List Bytes
  | [] => [[]]
  | c :: s =>
    if c = SLASH then [] :: segments s
    else match segments s with
      | [] => [[c]]
      | seg :: segs => (c :: seg) :: segs

def dot : Bytes := [DOT]

def dotdot : Bytes := [DOT, DOT]

/-- A segment that names something in a directory. -/
def IsName (seg : Bytes) : Prop := seg ≠ [] ∧ seg ≠ dot ∧ seg ≠ dotdot ∧ SLASH ∉ seg

instance (seg : Bytes) : Decidable (IsName seg) := inferInstanceAs (Decidable (_ ∧ _ ∧ _ ∧ _))

/-- The last name is the head of the stack. -/
def enter (stack : List Bytes) (seg : Bytes) : List Bytes :=
  if seg = [] ∨ seg = dot then stack else if seg = dotdot then stack.tail else seg :: stack

def resolve (stack : List Bytes) (segs : List Bytes) : List Bytes := segs.foldl enter stack

/-- The names on the way from the root to an absolute path. -/
def namesOf (path : Bytes) : List Bytes := (resolve [] (segments path)).reverse

/-- A slash before every name. -/
def pathOf (names : List Bytes) : Bytes := names.flatMap (SLASH :: ·)

/-- The path without empty segments, `.` and `..`. -/
def normalise (path : Bytes) : Bytes :=
  if namesOf path = [] then [SLASH] else pathOf (namesOf path)

/-- The path is the directory or leads into it. -/
def Within (dir path : Bytes) : Prop := path = dir ∨ dir ++ [SLASH] <+: path

/-! ## Segments -/

theorem segments_ne_nil (s : Bytes) : segments s ≠ [] := by
  cases s with
  | nil => nofun
  | cons c s =>
    rw [segments]
    split_ifs
    · nofun
    · split <;> nofun

theorem segments_slash (s : Bytes) : segments (SLASH :: s) = [] :: segments s := if_pos rfl

/-- Text without a slash before a path belongs to its first segment. -/
theorem segments_append {a s seg : Bytes} {segs : List Bytes} (ha : SLASH ∉ a)
    (hs : segments s = seg :: segs) : segments (a ++ s) = (a ++ seg) :: segs := by
  induction a with
  | nil => exact hs
  | cons c a ih =>
    obtain ⟨hc, ha⟩ : SLASH ≠ c ∧ SLASH ∉ a := by simpa using ha
    rw [List.cons_append, segments, if_neg (Ne.symm hc), ih ha]
    rfl

/-- Behind a path, the first segment of a text belongs to its last name. -/
theorem segments_pathOf_append {names : List Bytes} {last s seg : Bytes} {segs : List Bytes}
    (hnames : ∀ n ∈ names, SLASH ∉ n) (hlast : SLASH ∉ last) (hs : segments s = seg :: segs) :
    segments (pathOf (names ++ [last]) ++ s) = [] :: (names ++ (last ++ seg) :: segs) := by
  induction names with
  | nil =>
    have hcons : pathOf ([] ++ [last]) ++ s = SLASH :: (last ++ s) := by simp [pathOf]
    rw [hcons, segments_slash, segments_append hlast hs]
    rfl
  | cons n names ih =>
    obtain ⟨hn, hnames⟩ := List.forall_mem_cons.mp hnames
    have hcons : pathOf (n :: names ++ [last]) ++ s =
        SLASH :: (n ++ (pathOf (names ++ [last]) ++ s)) := by simp [pathOf]
    rw [hcons, segments_slash, segments_append hn (ih hnames), List.append_nil]
    rfl

/-! ## Resolution -/

theorem enter_name {seg : Bytes} (h : IsName seg) (stack : List Bytes) :
    enter stack seg = seg :: stack := by
  obtain ⟨hnil, hdot, hdotdot, -⟩ := h
  rw [enter, if_neg (not_or.mpr ⟨hnil, hdot⟩), if_neg hdotdot]

theorem enter_nil (stack : List Bytes) : enter stack [] = stack := rfl

theorem resolve_append (stack : List Bytes) (segs segs' : List Bytes) :
    resolve stack (segs ++ segs') = resolve (resolve stack segs) segs' := List.foldl_append

theorem resolve_names {names : List Bytes} (h : ∀ n ∈ names, IsName n) (stack : List Bytes) :
    resolve stack names = names.reverse ++ stack := by
  induction names generalizing stack with
  | nil => rfl
  | cons n names ih =>
    obtain ⟨hn, hnames⟩ := List.forall_mem_cons.mp h
    rw [resolve, List.foldl_cons, enter_name hn, ← resolve, ih hnames]
    simp

/-- How many directories are left, and the stack of those entered since. -/
def climbStep (p : Nat × List Bytes) (seg : Bytes) : Nat × List Bytes :=
  if seg = [] ∨ seg = dot then p
  else if seg = dotdot then (if p.2 = [] then (p.1 + 1, []) else (p.1, p.2.tail))
  else (p.1, seg :: p.2)

def climb (segs : List Bytes) : Nat × List Bytes := segs.foldl climbStep (0, [])

theorem enter_climbStep (stack : List Bytes) (p : Nat × List Bytes) (seg : Bytes) :
    enter (p.2 ++ stack.drop p.1) seg =
      (climbStep p seg).2 ++ stack.drop (climbStep p seg).1 := by
  obtain ⟨n, entered⟩ := p
  unfold enter climbStep
  split_ifs with hstay hup hnil
  · rfl
  · obtain rfl : entered = [] := hnil
    simp [List.tail_drop]
  · obtain ⟨x, xs, rfl⟩ := List.exists_cons_of_ne_nil hnil
    rfl
  · rfl

/-- A relative path does the same to every stack. -/
theorem resolve_eq (stack segs : List Bytes) :
    resolve stack segs = (climb segs).2 ++ stack.drop (climb segs).1 := by
  have hfold : ∀ (segs : List Bytes) (p : Nat × List Bytes),
      resolve (p.2 ++ stack.drop p.1) segs =
        (segs.foldl climbStep p).2 ++ stack.drop (segs.foldl climbStep p).1 := by
    intro segs
    induction segs with
    | nil => exact fun _ => rfl
    | cons seg segs ih =>
      intro p
      rw [resolve, List.foldl_cons, enter_climbStep, ← resolve, ih]
      rfl
  exact hfold segs (0, [])

/-! ## Directories -/

/-- An absolute normalised path without a slash at its end. No name in it holds a `NUL`. -/
structure Directory where
  names : List Bytes
  ne_nil : names ≠ []
  isName : ∀ n ∈ names, IsName n
  nul_not_mem : ∀ n ∈ names, NUL ∉ n

def Directory.path (dir : Directory) : Bytes := pathOf dir.names

theorem pathOf_cons (n : Bytes) (names : List Bytes) :
    pathOf (n :: names) = SLASH :: (n ++ pathOf names) := rfl

theorem pathOf_eq_nil_or (names : List Bytes) :
    pathOf names = [] ∨ ∃ s, pathOf names = SLASH :: s := by
  cases names with
  | nil => exact .inl rfl
  | cons n names => exact .inr ⟨_, rfl⟩

/-- The first name ends at the next slash. -/
theorem append_inj_of_slash {a b s t : Bytes} (ha : SLASH ∉ a) (hb : SLASH ∉ b)
    (hs : s = [] ∨ ∃ r, s = SLASH :: r) (ht : t = [] ∨ ∃ r, t = SLASH :: r)
    (h : a ++ s = b ++ t) : a = b ∧ s = t := by
  have htake : ∀ {a s : Bytes}, SLASH ∉ a → (s = [] ∨ ∃ r, s = SLASH :: r) →
      (a ++ s).takeWhile (· ≠ SLASH) = a := by
    intro a s ha hs
    have hall : ∀ c ∈ a, decide (c ≠ SLASH) = true := fun c hc =>
      decide_eq_true (fun h => ha (h ▸ hc))
    rw [List.takeWhile_append_of_pos hall]
    rcases hs with rfl | ⟨r, rfl⟩
    · simp
    · simp
  have hab : a = b := by rw [← htake ha hs, h, htake hb ht]
  subst hab
  exact ⟨rfl, List.append_cancel_left h⟩

theorem pathOf_within_iff {ds ns : List Bytes} (hds : ∀ n ∈ ds, SLASH ∉ n)
    (hns : ∀ n ∈ ns, SLASH ∉ n) : Within (pathOf ds) (pathOf ns) ↔ ds <+: ns := by
  induction ds generalizing ns with
  | nil =>
    refine iff_of_true ?_ (List.nil_prefix)
    rcases pathOf_eq_nil_or ns with h | ⟨s, h⟩
    · exact .inl h
    · exact .inr ⟨s, h.symm⟩
  | cons d ds ih =>
    obtain ⟨hd, hds⟩ := List.forall_mem_cons.mp hds
    cases ns with
    | nil =>
      refine iff_of_false ?_ (by simp)
      rintro (h | ⟨s, h⟩)
      · cases h
      · cases h
    | cons n ns =>
      obtain ⟨hn, hns⟩ := List.forall_mem_cons.mp hns
      rw [List.cons_prefix_cons, ← ih hds hns]
      constructor
      · rintro (h | ⟨s, h⟩)
        · obtain ⟨rfl, heq⟩ := append_inj_of_slash hn hd (pathOf_eq_nil_or ns)
            (pathOf_eq_nil_or ds) (List.cons.inj h).2
          exact ⟨rfl, .inl heq⟩
        · rw [pathOf_cons, pathOf_cons, List.append_assoc] at h
          have h : d ++ (pathOf ds ++ SLASH :: s) = n ++ pathOf ns := by
            simpa using (List.cons.inj h).2
          have hslash : pathOf ds ++ SLASH :: s = [] ∨
              ∃ r, pathOf ds ++ SLASH :: s = SLASH :: r := by
            rcases pathOf_eq_nil_or ds with hnil | ⟨r, hr⟩
            · exact .inr ⟨s, by rw [hnil]; rfl⟩
            · exact .inr ⟨_, by rw [hr]; rfl⟩
          obtain ⟨rfl, heq⟩ := append_inj_of_slash hd hn hslash (pathOf_eq_nil_or ns) h
          exact ⟨rfl, .inr ⟨s, by rw [← heq]; simp⟩⟩
      · rintro ⟨rfl, h | ⟨s, h⟩⟩
        · exact .inl (by rw [pathOf_cons, pathOf_cons, h])
        · exact .inr ⟨s, by rw [pathOf_cons, pathOf_cons, ← h]; simp⟩

theorem mem_resolve {stack segs : List Bytes} (hstack : ∀ n ∈ stack, SLASH ∉ n)
    (hsegs : ∀ n ∈ segs, SLASH ∉ n) : ∀ n ∈ resolve stack segs, SLASH ∉ n := by
  induction segs generalizing stack with
  | nil => exact hstack
  | cons seg segs ih =>
    obtain ⟨hseg, hsegs⟩ := List.forall_mem_cons.mp hsegs
    apply ih _ hsegs
    intro n hn
    unfold enter at hn
    split_ifs at hn
    · exact hstack n hn
    · exact hstack n (List.mem_of_mem_tail hn)
    · rcases List.mem_cons.mp hn with rfl | hn
      · exact hseg
      · exact hstack n hn

theorem slash_not_mem_segments (s : Bytes) : ∀ n ∈ segments s, SLASH ∉ n := by
  induction s with
  | nil => simp [segments]
  | cons c s ih =>
    rw [segments]
    split_ifs with hc
    · exact List.forall_mem_cons.mpr ⟨List.not_mem_nil, ih⟩
    · cases hs : segments s with
      | nil => exact absurd hs (segments_ne_nil s)
      | cons seg segs =>
        rw [hs] at ih
        obtain ⟨hseg, hsegs⟩ := List.forall_mem_cons.mp ih
        refine List.forall_mem_cons.mpr ⟨?_, hsegs⟩
        simpa [Ne.symm hc] using hseg

/-- A path lies in a directory when its names begin with those of the directory. -/
theorem Directory.within_iff (dir : Directory) (path : Bytes) :
    Within dir.path (normalise path) ↔ dir.names <+: namesOf path := by
  have hdir : ∀ n ∈ dir.names, SLASH ∉ n := fun n hn => (dir.isName n hn).2.2.2
  have hpath : ∀ n ∈ namesOf path, SLASH ∉ n := fun n hn =>
    mem_resolve (fun _ h => absurd h List.not_mem_nil) (slash_not_mem_segments path) n
      (List.mem_reverse.mp hn)
  rw [normalise]
  split_ifs with hroot
  · obtain ⟨d, ds, hds⟩ := List.exists_cons_of_ne_nil dir.ne_nil
    have hd : d ≠ [] := (dir.isName d (hds ▸ List.mem_cons_self)).1
    obtain ⟨c, d, rfl⟩ := List.exists_cons_of_ne_nil hd
    rw [hroot, Directory.path, hds]
    refine iff_of_false ?_ (by simp)
    rintro (h | ⟨s, h⟩)
    · cases h
    · cases h
  · exact pathOf_within_iff hdir hpath

/-! ## A text behind a directory -/

/-- The text as a relative path. A first segment that is not empty changes the last name of the
directory: it leaves the directory for another one beside it. -/
def Directory.relative (dir : Directory) (s : Bytes) : List Bytes :=
  match segments s with
  | [] => []
  | seg :: segs =>
    if seg = [] then segs else dotdot :: (dir.names.getLast dir.ne_nil ++ seg) :: segs

/-- The names that the text enters begin with those of the directory that it leaves. -/
def Directory.Keeps (dir : Directory) (s : Bytes) : Prop :=
  dir.names.drop (dir.names.length - (climb (dir.relative s)).1) <+:
    (climb (dir.relative s)).2.reverse

instance (dir : Directory) (s : Bytes) : Decidable (dir.Keeps s) :=
  inferInstanceAs (Decidable (_ <+: _))

theorem Directory.nul_not_mem_path (dir : Directory) : NUL ∉ dir.path := by
  rw [path, pathOf, List.mem_flatMap]
  rintro ⟨n, hn, hmem⟩
  rcases List.mem_cons.mp hmem with heq | hmem
  · cases heq
  · exact dir.nul_not_mem n hn hmem

theorem IsName.append {n seg : Bytes} (h : IsName n) (hseg : seg ≠ []) (hslash : SLASH ∉ seg) :
    IsName (n ++ seg) := by
  obtain ⟨hnil, hdot, -, hn⟩ := h
  obtain ⟨c, n, rfl⟩ := List.exists_cons_of_ne_nil hnil
  obtain ⟨c', seg, rfl⟩ := List.exists_cons_of_ne_nil hseg
  refine ⟨nofun, ?_, ?_, ?_⟩
  · simp [dot]
  · intro heq
    cases n with
    | nil =>
      cases heq
      exact hdot rfl
    | cons c'' n => simp [dotdot] at heq
  · rw [List.mem_append]
    exact not_or.mpr ⟨hn, hslash⟩

theorem Directory.namesOf_append (dir : Directory) (s : Bytes) :
    namesOf (dir.path ++ s) = (resolve dir.names.reverse (dir.relative s)).reverse := by
  have hnames := dir.isName
  have hconcat := List.dropLast_concat_getLast dir.ne_nil
  rw [Directory.relative, Directory.path]
  generalize dir.names.getLast dir.ne_nil = last at hconcat ⊢
  generalize dir.names.dropLast = names at hconcat
  rw [← hconcat] at hnames ⊢
  obtain ⟨hnames, hlast⟩ := List.forall_mem_append.mp hnames
  obtain hlast := hlast last List.mem_cons_self
  cases hs : segments s with
  | nil => exact absurd hs (segments_ne_nil s)
  | cons seg segs =>
    have hslash : SLASH ∉ seg := slash_not_mem_segments s seg (hs ▸ List.mem_cons_self)
    rw [namesOf, segments_pathOf_append (fun n hn => (hnames n hn).2.2.2) hlast.2.2.2 hs,
      resolve, List.foldl_cons, enter_nil, ← resolve, resolve_append, resolve_names hnames,
      List.append_nil, List.reverse_append, List.reverse_singleton, List.singleton_append]
    simp only
    split_ifs with hseg
    · rw [hseg, List.append_nil, resolve, List.foldl_cons, enter_name hlast, ← resolve]
    · have hup : enter (last :: names.reverse) dotdot = names.reverse := rfl
      rw [resolve, resolve, List.foldl_cons, List.foldl_cons, hup, List.foldl_cons,
        enter_name (hlast.append hseg hslash)]

theorem prefix_take_append_iff {names entered : List Bytes} (n : Nat) :
    names <+: names.take n ++ entered ↔ names.drop n <+: entered := by
  conv_lhs => lhs; rw [← List.take_append_drop n names]
  exact List.prefix_append_right_inj _

/-- **Resolution behind a directory.** The path of a directory with a text behind it lies in the
directory exactly when the text keeps it. -/
theorem Directory.within_append_iff (dir : Directory) (s : Bytes) :
    Within dir.path (normalise (dir.path ++ s)) ↔ dir.Keeps s := by
  rw [dir.within_iff, dir.namesOf_append, resolve_eq, List.reverse_append, List.reverse_drop,
    List.reverse_reverse, List.length_reverse, prefix_take_append_iff]
  rfl

end Httpancake.Bytes
