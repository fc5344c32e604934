import Mathlib.Logic.Relation
import ModuleLoader.Specifier
/-!
Which key a specifier names, in terms of the segments on its way: each `..` cancels against the nearest
ordinary segment that is left before it, and what survives is the key.
-/

namespace ModuleLoader.Specifier
set_option autoImplicit false

/-! ### Splitting and joining -/

section Splitting

variable {path front name segment : List Char} {parts : List (List Char)}

theorem segments_eq (path : List Char) : segments path = path.splitOn '/' := by
  induction path with
  | nil => rfl
  | cons c rest ih =>
    rw [List.splitOn_cons_eq_if_modifyHead, segments, ih]
    by_cases hc : c = '/'
    · simp [hc]
    · rw [if_neg hc, if_neg (by simpa using hc)]
      cases h : rest.splitOn '/' with
      | nil => exact absurd h (List.splitOn_ne_nil _ _)
      | cons first others => rfl

theorem join_eq (parts : List (List Char)) : join parts = ['/'].intercalate parts := by
  induction parts with
  | nil => rfl
  | cons first rest ih =>
    cases rest with
    | nil => simp [join]
    | cons second rest =>
      rw [List.intercalate_cons_cons, ← ih]
      simp [join]

theorem splitOn_append_cons (front rest : List Char) :
    (front ++ '/' :: rest).splitOn '/' = front.splitOn '/' ++ rest.splitOn '/' :=
  List.splitOnP_append_cons front rest (by simp)

theorem splitOn_of_not_mem (h : '/' ∉ name) : name.splitOn '/' = [name] := by
  have hsplit : (['/'].intercalate [name]).splitOn '/' = [name] :=
    List.splitOn_intercalate '/' (by simpa using h) (by simp)
  simpa using hsplit

theorem not_mem_of_mem_splitOn (h : segment ∈ path.splitOn '/') : '/' ∉ segment := by
  induction path generalizing segment with
  | nil =>
    obtain rfl : segment = [] := by simpa using h
    exact List.not_mem_nil
  | cons c rest ih =>
    rw [List.splitOn_cons_eq_if_modifyHead] at h
    by_cases hc : c = '/'
    · rw [if_pos (by simpa using hc)] at h
      rcases List.mem_cons.1 h with rfl | h
      · exact List.not_mem_nil
      · exact ih h
    · rw [if_neg (by simpa using hc)] at h
      cases hrest : rest.splitOn '/' with
      | nil => exact absurd hrest (List.splitOn_ne_nil _ _)
      | cons first others =>
        rw [hrest] at h ih
        rcases List.mem_cons.1 h with rfl | h
        · simpa [Ne.symm hc] using ih (List.mem_cons_self (a := first))
        · exact ih (List.mem_cons_of_mem _ h)

/-- A path with a separator has a last one. -/
theorem exists_last_separator (h : '/' ∈ path) :
    ∃ front name, path = front ++ '/' :: name ∧ '/' ∉ name := by
  obtain ⟨name, front, heq, hname⟩ := List.eq_append_cons_of_mem (List.mem_reverse.2 h)
  refine ⟨front.reverse, name.reverse, ?_, by simpa using hname⟩
  rw [← List.reverse_reverse path, heq]
  simp

theorem directory_append (h : '/' ∉ name) : directory (front ++ '/' :: name) = front := by
  have hdrop : (name.reverse ++ '/' :: front.reverse).dropWhile (· ≠ '/') = '/' :: front.reverse := by
    rw [List.dropWhile_append_of_pos (by simpa using fun c hc (heq : c = '/') => h (heq ▸ hc))]
    simp
  simp only [directory, List.reverse_append, List.reverse_cons, List.append_assoc, List.singleton_append, hdrop]
  simp

theorem directory_of_not_mem (h : '/' ∉ name) : directory name = [] := by
  have hdrop : (name.reverse ++ []).dropWhile (· ≠ '/') = [].dropWhile (· ≠ '/') :=
    List.dropWhile_append_of_pos (by simpa using fun c hc (heq : c = '/') => h (heq ▸ hc))
  rw [List.append_nil, List.dropWhile_nil] at hdrop
  simp only [directory, hdrop]
  rfl

end Splitting

/-! ### Cancelling -/

/-- One `..` cancels against the segment before it. -/
inductive Cancels : List (List Char) → List (List Char) → Prop
  | step (before after : List (List Char)) {segment : List Char} (hsegment : isUp segment = false) :
    Cancels (before ++ segment :: ['.', '.'] :: after) (before ++ after)

/-- `kept` is what is left of a way once every `..` on it has cancelled. -/
def Survives (way kept : List (List Char)) : Prop :=
  Relation.ReflTransGen Cancels way kept ∧ ∀ segment ∈ kept, isUp segment = false

/-- No start of the way leads further up than it led down. -/
def Descends (way : List (List Char)) : Prop :=
  ∀ start, start <+: way → start.countP isUp ≤ start.countP (!isUp ·)

/-- Every segment of the way says something. -/
def Telling (way : List (List Char)) : Prop :=
  ∀ segment ∈ way, isVoid segment = false

section Cancelling

variable {segment : List Char} {way rest kept above : List (List Char)}

theorem Telling.tail (h : Telling (segment :: rest)) : Telling rest :=
  fun other hmem => h other (List.mem_cons_of_mem _ hmem)

theorem telling_filter (way : List (List Char)) : Telling (way.filter (!isVoid ·)) := fun segment hmem => by
  simpa using (List.mem_filter.1 hmem).2

theorem collapse_filter (way above : List (List Char)) :
    collapse above (way.filter (!isVoid ·)) = collapse above way := by
  induction way generalizing above with
  | nil => rfl
  | cons segment rest ih =>
    cases hvoid : isVoid segment with
    | true => simp [collapse, hvoid, ih]
    | false =>
      rw [List.filter_cons_of_pos (by simpa using hvoid)]
      simp only [collapse, hvoid, ih]

theorem collapse_append (before after above : List (List Char)) :
    collapse above (before ++ after) = (collapse above before).bind fun above => collapse above after := by
  induction before generalizing above with
  | nil => rfl
  | cons segment rest ih =>
    simp only [List.cons_append, collapse.eq_def above (_ :: _)]
    repeat' split
    all_goals first | exact ih _ | rfl

theorem collapse_ordinary (hvoid : isVoid segment = false) (hup : isUp segment = false) :
    collapse above (segment :: rest) = collapse (segment :: above) rest := by
  simp [collapse, hvoid, hup]

theorem collapse_up (hup : isUp segment = true) (last : List Char) :
    collapse (last :: above) (segment :: rest) = collapse above rest := by
  obtain rfl : segment = ['.', '.'] := by simpa [isUp] using hup
  rfl

theorem collapse_nil_up (hup : isUp segment = true) : collapse [] (segment :: rest) = none := by
  obtain rfl : segment = ['.', '.'] := by simpa [isUp] using hup
  rfl

theorem Cancels.collapse_eq (h : Cancels way rest) (hway : Telling way) :
    collapse above way = collapse above rest := by
  obtain ⟨before, after, hup⟩ := h
  rw [collapse_append, collapse_append]
  refine congrArg _ (funext fun above => ?_)
  rw [collapse_ordinary (hway _ (by simp)) hup, collapse_up (by decide)]

theorem Cancels.telling (h : Cancels way rest) (hway : Telling way) : Telling rest := by
  obtain ⟨before, after, -⟩ := h
  intro segment hmem
  rcases List.mem_append.1 hmem with hmem | hmem <;> exact hway segment (by simp [hmem])

/-- What needs no cancelling is kept. -/
theorem collapse_kept (hvoid : Telling kept) (hup : ∀ segment ∈ kept, isUp segment = false) :
    collapse above kept = some (kept.reverse ++ above) := by
  induction kept generalizing above with
  | nil => rfl
  | cons segment rest ih =>
    obtain ⟨hsegment, hrest⟩ := List.forall_mem_cons.1 hup
    rw [collapse_ordinary (hvoid _ (by simp)) hsegment, ih hvoid.tail hrest]
    simp

/-- The place reached so far together with what is left of the way is the way with some of it cancelled. -/
theorem survives_of_collapse {result : List (List Char)} (hway : Telling way)
    (habove : ∀ segment ∈ above, isUp segment = false) (h : collapse above way = some result) :
    Survives (above.reverse ++ way) result.reverse := by
  induction way generalizing above with
  | nil =>
    obtain rfl : above = result := by simpa [collapse] using h
    exact ⟨by simpa using .refl, by simpa using habove⟩
  | cons segment rest ih =>
    cases hup : isUp segment with
    | false =>
      rw [collapse_ordinary (hway _ (by simp)) hup] at h
      simpa using ih hway.tail (List.forall_mem_cons.2 ⟨hup, habove⟩) h
    | true =>
      cases above with
      | nil => cases (collapse_nil_up hup).symm.trans h
      | cons last outer =>
        rw [collapse_up hup] at h
        obtain ⟨hlast, houter⟩ := List.forall_mem_cons.1 habove
        obtain ⟨hreach, hkept⟩ := ih hway.tail houter h
        have hcancels := Cancels.step outer.reverse rest hlast
        rw [← show segment = ['.', '.'] by simpa [isUp] using hup] at hcancels
        exact ⟨.head (by simpa using hcancels) hreach, hkept⟩

theorem survives_iff (hway : Telling way) : Survives way kept ↔ collapse [] way = some kept.reverse := by
  constructor
  · rintro ⟨hreach, hkept⟩
    induction hreach using Relation.ReflTransGen.head_induction_on with
    | refl =>
      rw [collapse_kept hway hkept, List.append_nil]
    | head hstep _ ih => rw [hstep.collapse_eq hway, ih (hstep.telling hway)]
  · intro h
    simpa using survives_of_collapse hway (by simp) h

theorem Survives.unique {other : List (List Char)} (hway : Telling way) (h : Survives way kept)
    (hother : Survives way other) : kept = other := by
  rw [survives_iff hway] at h hother
  simpa using h.symm.trans hother

theorem Survives.telling (hway : Telling way) (h : Survives way kept) : Telling kept := by
  obtain ⟨hreach, -⟩ := h
  induction hreach with
  | refl => exact hway
  | tail _ hstep ih => exact hstep.telling ih

/-- What survives came along the way. -/
theorem Survives.subset (h : Survives way kept) : kept ⊆ way := by
  obtain ⟨hreach, -⟩ := h
  induction hreach with
  | refl => exact List.Subset.refl _
  | tail _ hstep ih =>
    obtain ⟨before, after, -⟩ := hstep
    exact fun segment hmem => ih (by rcases List.mem_append.1 hmem with hmem | hmem <;> simp [hmem])

theorem collapse_isSome (hway : Telling way) :
    (collapse above way).isSome ↔
      ∀ start, start <+: way → start.countP isUp ≤ above.length + start.countP (!isUp ·) := by
  induction way generalizing above with
  | nil => simp [collapse]
  | cons segment rest ih =>
    have hcons : ∀ bound : List (List Char) → Prop, bound [] →
        ((∀ start, start <+: segment :: rest → bound start) ↔
          ∀ start, start <+: rest → bound (segment :: start)) := by
      intro bound hnil
      simp only [List.prefix_cons_iff]
      exact ⟨fun h start hstart => h _ (.inr ⟨start, rfl, hstart⟩), fun h start hstart => by
        rcases hstart with rfl | ⟨start, rfl, hstart⟩
        · exact hnil
        · exact h start hstart⟩
    rw [hcons _ (by simp)]
    cases hup : isUp segment with
    | false =>
      rw [collapse_ordinary (hway _ (by simp)) hup, ih hway.tail]
      refine forall₂_congr fun start _ => ?_
      simp only [List.countP_cons, hup, List.length_cons]
      simp
      omega
    | true =>
      cases above with
      | nil =>
        rw [collapse_nil_up hup]
        refine iff_of_false (by simp) fun h => ?_
        simpa [List.countP_cons, hup] using h [] List.nil_prefix
      | cons last outer =>
        rw [collapse_up hup, ih hway.tail]
        refine forall₂_congr fun start _ => ?_
        simp only [List.countP_cons, hup, List.length_cons]
        simp
        omega

theorem exists_survives (hway : Telling way) : (∃ kept, Survives way kept) ↔ Descends way := by
  have h : (collapse [] way).isSome ↔
      ∀ start, start <+: way → start.countP isUp ≤ 0 + start.countP (!isUp ·) := collapse_isSome hway
  simp only [Nat.zero_add] at h
  rw [Descends, ← h, Option.isSome_iff_exists]
  constructor
  · rintro ⟨kept, hkept⟩
    exact ⟨_, (survives_iff hway).1 hkept⟩
  · rintro ⟨result, hresult⟩
    exact ⟨result.reverse, (survives_iff hway).2 (by simpa using hresult)⟩

end Cancelling

/-! ### Keys -/

/-- A specifier that is meant from the directory of the module that mentions it. -/
def Relative (specifier : List Char) : Prop :=
  specifier = ['.'] ∨ specifier = ['.', '.'] ∨ ['.', '/'] <+: specifier ∨ ['.', '.', '/'] <+: specifier

instance : DecidablePred Relative := fun specifier =>
  inferInstanceAs (Decidable (specifier = ['.'] ∨ specifier = ['.', '.'] ∨ ['.', '/'] <+: specifier ∨
    ['.', '.', '/'] <+: specifier))

/-- A segment that leads down to a place of its own. -/
def Ordinary (segment : List Char) : Prop :=
  segment ≠ [] ∧ segment ≠ ['.'] ∧ segment ≠ ['.', '.']

/-- The segments of a path, but for those that say nothing. -/
def way (path : List Char) : List (List Char) :=
  (path.splitOn '/').filter (!isVoid ·)

/-- The segments of `referrer` before its last separator and then those of `specifier`, but for those that say
nothing. -/
def wayFrom (referrer specifier : List Char) : List (List Char) :=
  ((referrer.splitOn '/').dropLast ++ specifier.splitOn '/').filter (!isVoid ·)

/-- The separator in front of a key that is reached from `start`. -/
def lead (start : List Char) : List Char :=
  if ['/'] <+: start then ['/'] else []

section Keys

variable {path specifier referrer key start segment : List Char} {kept : List (List Char)}

theorem lead_eq_nil_iff : lead start = [] ↔ ¬ ['/'] <+: start := by
  simp [lead]

theorem isAbsolute_iff : isAbsolute path = true ↔ ['/'] <+: path := by
  fun_cases isAbsolute path with
  | case1 rest => simp
  | case2 path h =>
    refine iff_of_false (by simp) ?_
    rintro ⟨rest, rfl⟩
    exact h rest rfl

theorem isRelative_iff : isRelative specifier = true ↔ Relative specifier := by
  unfold Relative
  fun_cases isRelative specifier with
  | case1 => simp
  | case2 => simp
  | case3 rest => simp
  | case4 rest => simp
  | case5 specifier h₁ h₂ h₃ h₄ =>
    refine iff_of_false (by simp) ?_
    rintro (rfl | rfl | ⟨rest, rfl⟩ | ⟨rest, rfl⟩)
    · exact h₁ rfl
    · exact h₂ rfl
    · exact h₃ rest rfl
    · exact h₄ rest rfl

theorem ordinary_iff : Ordinary segment ↔ isVoid segment = false ∧ isUp segment = false := by
  simp [Ordinary, isVoid, isUp, and_assoc]

theorem wayFrom_eq (referrer specifier : List Char) :
    wayFrom referrer specifier = way (joined specifier referrer) := by
  unfold wayFrom way joined
  by_cases h : '/' ∈ referrer
  · obtain ⟨front, name, rfl, hname⟩ := exists_last_separator h
    rw [splitOn_append_cons, splitOn_of_not_mem hname, List.dropLast_concat, directory_append hname]
    cases front with
    | nil => simp [isVoid]
    | cons c rest => rw [splitOn_append_cons]
  · rw [splitOn_of_not_mem h, directory_of_not_mem h]
    rfl

theorem telling_way (path : List Char) : Telling (way path) :=
  telling_filter _

theorem collapse_segments (path : List Char) : collapse [] (segments path) = collapse [] (way path) := by
  rw [segments_eq, way, collapse_filter]

theorem normalize_eq_ok :
    normalize path (isAbsolute start) = .ok key ↔
      ∃ kept, Survives (way path) kept ∧ key = lead start ++ ['/'].intercalate kept := by
  have hlead : ∀ rest, (if isAbsolute start then '/' :: rest else rest) = lead start ++ rest := by
    intro rest
    by_cases h : ['/'] <+: start
    · rw [if_pos (isAbsolute_iff.2 h), lead, if_pos h]
      rfl
    · rw [if_neg (mt isAbsolute_iff.1 h), lead, if_neg h]
      rfl
  unfold normalize
  simp only [collapse_segments, join_eq, hlead, survives_iff (telling_way path)]
  cases hcollapse : collapse [] (way path) with
  | none => simp
  | some result =>
    constructor
    · rintro ⟨⟩
      exact ⟨result.reverse, by simp, rfl⟩
    · rintro ⟨kept, hkept, rfl⟩
      obtain rfl := Option.some.inj hkept
      simp

/-- What survives on a way is ordinary. -/
theorem Survives.ordinary (h : Survives (way path) kept) (hmem : segment ∈ kept) : Ordinary segment :=
  ordinary_iff.2 ⟨h.telling (telling_way path) segment hmem, h.2 segment hmem⟩

theorem Survives.splitOn_intercalate (h : Survives (way path) kept) (hne : kept ≠ []) :
    (['/'].intercalate kept).splitOn '/' = kept :=
  List.splitOn_intercalate '/'
    (fun _ hmem => not_mem_of_mem_splitOn (List.mem_filter.1 (h.subset hmem)).1) hne

theorem Survives.intercalate_eq_nil_iff (h : Survives (way path) kept) :
    ['/'].intercalate kept = [] ↔ kept = [] := by
  refine ⟨fun heq => Decidable.byContradiction fun hne => ?_, fun heq => heq ▸ rfl⟩
  have hsplit := h.splitOn_intercalate hne
  rw [heq] at hsplit
  have hmem : [] ∈ kept := hsplit ▸ List.mem_singleton.2 rfl
  exact (h.ordinary hmem).1 rfl

theorem Survives.not_prefix (h : Survives (way path) kept) : ¬ ['/'] <+: ['/'].intercalate kept := by
  rintro ⟨rest, heq⟩
  rcases Decidable.em (kept = []) with rfl | hne
  · simp at heq
  · have hsplit := h.splitOn_intercalate hne
    rw [← heq, List.singleton_append, ← List.nil_append ('/' :: rest), splitOn_append_cons] at hsplit
    have hmem : [] ∈ kept := hsplit ▸ List.mem_append_left _ (by simp)
    exact (h.ordinary hmem).1 rfl

theorem Survives.not_relative (h : Survives (way path) kept) : ¬ Relative (['/'].intercalate kept) := by
  rcases Decidable.em (kept = []) with rfl | hne
  · simp [Relative]
  have hsplit := h.splitOn_intercalate hne
  have hnot : ∀ rest first, (first = ['.'] ∨ first = ['.', '.']) →
      (['/'].intercalate kept).splitOn '/' ≠ first :: rest := by
    intro rest first hfirst heq
    have hmem : first ∈ kept := by
      rw [← hsplit, heq]
      exact List.mem_cons_self
    exact hfirst.elim (h.ordinary hmem).2.1 (h.ordinary hmem).2.2
  rintro (heq | heq | ⟨rest, heq⟩ | ⟨rest, heq⟩)
  · exact hnot [] ['.'] (.inl rfl) (by rw [heq]; rfl)
  · exact hnot [] ['.', '.'] (.inr rfl) (by rw [heq]; rfl)
  · refine hnot (rest.splitOn '/') ['.'] (.inl rfl) ?_
    rw [← heq]
    exact splitOn_append_cons ['.'] rest
  · refine hnot (rest.splitOn '/') ['.', '.'] (.inr rfl) ?_
    rw [← heq]
    exact splitOn_append_cons ['.', '.'] rest

/-- The way along a key that has been reached is what survived. -/
theorem Survives.way_eq (h : Survives (way path) kept) :
    way (lead start ++ ['/'].intercalate kept) = kept := by
  have hway : way (['/'].intercalate kept) = kept := by
    rcases Decidable.em (kept = []) with rfl | hne
    · rfl
    · rw [way, h.splitOn_intercalate hne, List.filter_eq_self]
      exact fun segment hmem => by simp [h.telling (telling_way path) segment hmem]
  unfold lead
  split
  · rw [way, List.singleton_append, ← List.nil_append ('/' :: _), splitOn_append_cons]
    exact hway
  · exact hway

end Keys

/-- The key that is reached from `start` along `way`. -/
structure Reaches (start : List Char) (way : List (List Char)) (outcome : Except Fault String) : Prop where
  /-- There is one unless the way leads further up than it led down. -/
  exists_iff : (∃ key, outcome = .ok key) ↔ Descends way
  /-- It consists of what survives. -/
  survives : ∀ key, outcome = .ok key →
    ∃ kept, Survives way kept ∧ key.toList = lead start ++ ['/'].intercalate kept
  leads : ∀ key, outcome = .ok key → (['/'] <+: key.toList ↔ ['/'] <+: start)
  ordinary : ∀ key, outcome = .ok key → ∃ rest, key.toList = lead start ++ rest ∧
    (rest ≠ [] → ∀ segment ∈ rest.splitOn '/', Ordinary segment)

variable {specifier referrer key : String}

theorem resolve_eq_ok :
    resolve specifier referrer = .ok key ↔ resolveChars specifier.toList referrer.toList = .ok key.toList := by
  unfold resolve
  cases resolveChars specifier.toList referrer.toList with
  | error fault => simp [Except.map]
  | ok chars =>
    constructor
    · rintro ⟨⟩
      simp
    · rintro ⟨⟩
      simp [Except.map]

/-- How a specifier that is a path is resolved. -/
theorem reaches_of_normalize {path start : List Char}
    (h : resolveChars specifier.toList referrer.toList = normalize path (isAbsolute start)) :
    Reaches start (way path) (resolve specifier referrer) := by
  have hok : ∀ key : String, resolve specifier referrer = .ok key ↔
      ∃ kept, Survives (way path) kept ∧ key.toList = lead start ++ ['/'].intercalate kept := by
    intro key
    rw [resolve_eq_ok, h, normalize_eq_ok]
  refine ⟨?_, fun key hkey => (hok key).1 hkey, fun key hkey => ?_, fun key hkey => ?_⟩
  · rw [← exists_survives (telling_way path)]
    constructor
    · rintro ⟨key, hkey⟩
      obtain ⟨kept, hkept, -⟩ := (hok key).1 hkey
      exact ⟨kept, hkept⟩
    · rintro ⟨kept, hkept⟩
      exact ⟨_, (hok (String.ofList (lead start ++ ['/'].intercalate kept))).2 ⟨kept, hkept, by simp⟩⟩
  · obtain ⟨kept, hkept, heq⟩ := (hok key).1 hkey
    rw [heq, lead]
    split
    · simp [*]
    · exact iff_of_false hkept.not_prefix ‹_›
  · obtain ⟨kept, hkept, heq⟩ := (hok key).1 hkey
    refine ⟨_, heq, fun hne segment hmem => hkept.ordinary ?_⟩
    rwa [hkept.splitOn_intercalate (by rintro rfl; exact hne rfl)] at hmem

theorem resolveChars_of_absolute {path other : List Char} (h : ['/'] <+: path) :
    resolveChars path other = normalize path (isAbsolute path) := by
  have hne : path.isEmpty = false := by
    obtain ⟨rest, rfl⟩ := h
    rfl
  rw [resolveChars, hne, isAbsolute_iff.2 h]
  rfl

theorem resolveChars_of_relative {path other : List Char} (h : Relative path) :
    resolveChars path other = normalize (joined path other) (isAbsolute other) := by
  have hne : path.isEmpty = false := by
    rcases h with rfl | rfl | ⟨rest, rfl⟩ | ⟨rest, rfl⟩ <;> rfl
  have habsolute : isAbsolute path = false := by
    rcases h with rfl | rfl | ⟨rest, rfl⟩ | ⟨rest, rfl⟩ <;> rfl
  rw [resolveChars, hne, habsolute, isRelative_iff.2 h]
  rfl

theorem resolveChars_of_bare {path other : List Char} (hne : path ≠ []) (habsolute : ¬ ['/'] <+: path)
    (hrelative : ¬ Relative path) : resolveChars path other = .ok path := by
  have hempty : path.isEmpty = false := by simpa using hne
  rw [resolveChars, hempty, Bool.eq_false_iff.2 (mt isAbsolute_iff.1 habsolute),
    Bool.eq_false_iff.2 (mt isRelative_iff.1 hrelative)]
  rfl

/-- A key that has been reached names itself. -/
theorem Survives.resolveChars_eq {path start other : List Char} {kept : List (List Char)}
    (h : Survives (way path) kept) (hne : lead start ++ ['/'].intercalate kept ≠ []) :
    resolveChars (lead start ++ ['/'].intercalate kept) other = .ok (lead start ++ ['/'].intercalate kept) := by
  by_cases hstart : ['/'] <+: start
  · have hlead : lead start = ['/'] := if_pos hstart
    have habsolute : ['/'] <+: lead start ++ ['/'].intercalate kept := by simp [hlead]
    rw [resolveChars_of_absolute habsolute, normalize_eq_ok, h.way_eq]
    exact ⟨kept, ⟨.refl, h.2⟩, by rw [lead.eq_def (_ ++ _), if_pos habsolute, hlead]⟩
  · have hlead : lead start = [] := if_neg hstart
    rw [hlead, List.nil_append] at hne ⊢
    exact resolveChars_of_bare hne h.not_prefix h.not_relative

/-- A specifier names the key that its segments lead to: a relative one from the directory of the module that
mentions it, an absolute one from the top, and any other names itself. -/
theorem resolve_reaches (specifier referrer : String) :
    (Relative specifier.toList →
      Reaches referrer.toList (wayFrom referrer.toList specifier.toList) (resolve specifier referrer)) ∧
    (['/'] <+: specifier.toList →
      Reaches specifier.toList (way specifier.toList) (resolve specifier referrer)) ∧
    (specifier ≠ "" → ¬ Relative specifier.toList → ¬ ['/'] <+: specifier.toList →
      resolve specifier referrer = .ok specifier) := by
  refine ⟨fun h => ?_, fun h => ?_, fun hne hrelative habsolute => ?_⟩
  · rw [wayFrom_eq]
    exact reaches_of_normalize (resolveChars_of_relative h)
  · exact reaches_of_normalize (resolveChars_of_absolute h)
  · exact resolve_eq_ok.2 (resolveChars_of_bare (by simpa using hne) habsolute hrelative)

theorem resolve_reaches_sibling :
    Reaches "/app/main.js".toList [['a', 'p', 'p'], ['x'], ['.', '.'], ['y', '.', 'j', 's']]
        (resolve "./x/../y.js" "/app/main.js") ∧
      resolve "./x/../y.js" "/app/main.js" = .ok "/app/y.js" ∧
      Reaches "/y.js".toList [['y', '.', 'j', 's']] (resolve "/y.js" "main.js") ∧
      resolve "fs" "main.js" = .ok "fs" :=
  ⟨(resolve_reaches "./x/../y.js" "/app/main.js").1 (by decide), rfl,
    (resolve_reaches "/y.js" "main.js").2.1 (by decide),
    (resolve_reaches "fs" "main.js").2.2 (by decide) (by decide) (by decide)⟩

/-- A key that was reached is reached again by naming it, unless everything on the way to it cancelled. -/
theorem resolve_reached {specifier referrer key : String} (h : resolve specifier referrer = .ok key) :
    (key ≠ "" → ∀ other, resolve key other = .ok key) ∧
      (key = "" ↔ Relative specifier.toList ∧ ¬ ['/'] <+: referrer.toList ∧
        Survives (wayFrom referrer.toList specifier.toList) []) := by
  rw [resolve_eq_ok] at h
  have hstands : ∀ {path start : List Char},
      resolveChars specifier.toList referrer.toList = normalize path (isAbsolute start) →
        (key ≠ "" → ∀ other, resolve key other = .ok key) ∧
          (key = "" ↔ ¬ ['/'] <+: start ∧ Survives (way path) []) := by
    intro path start hpath
    obtain ⟨kept, hkept, hkey⟩ := normalize_eq_ok.1 (hpath.symm.trans h)
    have hempty : key = "" ↔ ¬ ['/'] <+: start ∧ kept = [] := by
      rw [← String.toList_eq_nil_iff, hkey, List.append_eq_nil_iff, lead_eq_nil_iff, hkept.intercalate_eq_nil_iff]
    refine ⟨fun hne other => ?_, hempty.trans (and_congr_right fun _ => ?_)⟩
    · rw [resolve_eq_ok, hkey]
      exact hkept.resolveChars_eq (by rwa [← hkey, ne_eq, String.toList_eq_nil_iff])
    · exact ⟨fun heq => heq ▸ hkept, fun hnil => hkept.unique (telling_way path) hnil⟩
  by_cases hrelative : Relative specifier.toList
  · simpa [hrelative, wayFrom_eq] using hstands (resolveChars_of_relative hrelative)
  by_cases habsolute : ['/'] <+: specifier.toList
  · obtain ⟨hkey, hempty⟩ := hstands (resolveChars_of_absolute habsolute)
    simpa [hrelative, habsolute, hempty] using hkey
  by_cases hne : specifier = ""
  · subst hne
    cases h
  · rw [resolveChars_of_bare (by simpa using hne) habsolute hrelative] at h
    obtain rfl : specifier = key := String.toList_injective (Except.ok.inj h)
    refine ⟨fun _ other => resolve_eq_ok.2 (resolveChars_of_bare (by simpa using hne) habsolute hrelative), ?_⟩
    simp [hne, hrelative]

theorem resolve_reached_twice : resolve "../lib/./a.js" "app/main.js" = .ok "lib/a.js" ∧
    resolve "lib/a.js" "other/main.js" = .ok "lib/a.js" :=
  have h : resolve "../lib/./a.js" "app/main.js" = .ok "lib/a.js" := rfl
  ⟨h, (resolve_reached h).1 (by decide) "other/main.js"⟩

theorem not_resolve_empty : ¬ ∀ specifier referrer other key : String,
    resolve specifier referrer = .ok key → resolve key other = .ok key := by
  intro h
  have hempty : resolve "" "main.js" = .ok "" := h "./" "main.js" "main.js" "" rfl
  have herror : resolve "" "main.js" = .error .empty := rfl
  exact nomatch herror.symm.trans hempty

end ModuleLoader.Specifier
