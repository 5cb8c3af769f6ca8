import GraphTex.FileTree
import Mathlib.Data.List.Flatten
import Mathlib.Data.List.Nodup
import Mathlib.Tactic.SplitIfs

/-!
# Files in trees

A file tree holds regular files at lists of names (`Entry.HasFile`). Walking below an entry comes to
these and to nothing else (`Entry.mem_files`), and to each of them once if in every directory the
names differ (`Entry.files_nodup`). Trees that are made by adding files and directories are of this
kind (`FileTree.wellFormed_addFile`).
-/

namespace GraphTex

namespace Entry

mutual

/-- Induction on an entry: a directory has a property if all its entries have it. -/
theorem induction {motive : Entry → Prop} (file : ∀ content, motive (.file content))
    (directory : ∀ entries : Entries, (∀ e ∈ entries, motive e.2) → motive (.directory entries)) :
    ∀ entry, motive entry
  | .file content => file content
  | .directory entries => directory entries (induction_entries file directory entries)

theorem induction_entries {motive : Entry → Prop} (file : ∀ content, motive (.file content))
    (directory : ∀ entries : Entries, (∀ e ∈ entries, motive e.2) → motive (.directory entries)) :
    ∀ entries : Entries, ∀ e ∈ entries, motive e.2
  | [], _, h => absurd h List.not_mem_nil
  | (name, entry) :: rest, e, h => by
    rcases List.mem_cons.1 h with rfl | hrest
    · exact induction file directory entry
    · exact induction_entries file directory rest e hrest

end

/-- There is a regular file at the end of the names. -/
inductive HasFile : Entry → List String → Prop
  | here (content : ByteArray) : HasFile (.file content) []
  | inside {entries : Entries} {name : String} {entry : Entry} {names : List String}
      (mem : (name, entry) ∈ entries) (file : HasFile entry names) :
      HasFile (.directory entries) (name :: names)

theorem filesOf_eq (entries : Entries) :
    filesOf entries = entries.flatMap fun e => e.2.files.map (e.1 :: ·) := by
  induction entries with
  | nil => rw [filesOf, List.flatMap_nil]
  | cons e rest ih => rw [filesOf, ih, List.flatMap_cons]

/-- **The walk comes to the regular files and to nothing else.** -/
theorem mem_files {entry : Entry} {names : List String} :
    names ∈ entry.files ↔ entry.HasFile names := by
  induction entry using Entry.induction generalizing names with
  | file content =>
    rw [files, List.mem_singleton]
    constructor
    · rintro rfl
      exact .here content
    · rintro ⟨⟩
      rfl
  | directory entries ih =>
    rw [files, filesOf_eq, List.mem_flatMap]
    constructor
    · rintro ⟨e, he, hmem⟩
      obtain ⟨names, hnames, rfl⟩ := List.mem_map.1 hmem
      exact .inside he ((ih e he).1 hnames)
    · rintro (_ | ⟨hmem, hfile⟩)
      exact ⟨_, hmem, List.mem_map_of_mem ((ih _ hmem).2 hfile)⟩

/-- A name that an entry of a directory may have. -/
def IsName (name : String) : Prop :=
  name ≠ "" ∧ name ≠ "." ∧ name ≠ ".." ∧ '/' ∉ name.toList ∧ '\x00' ∉ name.toList

/-- In every directory the names are names and differ. -/
inductive WellFormed : Entry → Prop
  | file (content : ByteArray) : WellFormed (.file content)
  | directory {entries : Entries} (distinct : (entries.map Prod.fst).Nodup)
      (named : ∀ e ∈ entries, IsName e.1) (below : ∀ e ∈ entries, WellFormed e.2) :
      WellFormed (.directory entries)

theorem wellFormed_empty : (Entry.directory []).WellFormed :=
  .directory List.nodup_nil (by simp) (by simp)

/-- **The walk comes to no file twice.** -/
theorem files_nodup {entry : Entry} (h : entry.WellFormed) : entry.files.Nodup := by
  induction h with
  | file content =>
    rw [files]
    exact List.nodup_singleton _
  | @directory entries distinct named below ih =>
    rw [files, filesOf_eq, List.nodup_flatMap]
    refine ⟨fun e he => (ih e he).map (List.cons_injective), ?_⟩
    refine (List.pairwise_map.1 distinct).imp fun {a b} hne names ha hb => ?_
    obtain ⟨namesA, -, rfl⟩ := List.mem_map.1 ha
    obtain ⟨namesB, -, heq⟩ := List.mem_map.1 hb
    exact hne (List.cons.inj heq).1.symm

/-- The names that lead to a file are names. -/
theorem HasFile.isName {entry : Entry} {names : List String} (h : entry.HasFile names)
    (hwell : entry.WellFormed) : ∀ name ∈ names, IsName name := by
  induction h with
  | here content => exact fun name hname => absurd hname List.not_mem_nil
  | inside mem file ih =>
    cases hwell with
    | directory distinct named below =>
    exact List.forall_mem_cons.2 ⟨named _ mem, ih (below _ mem)⟩

theorem HasFile.ne_nil {entries : Entries} {names : List String}
    (h : (Entry.directory entries).HasFile names) : names ≠ [] := by
  cases h
  exact List.cons_ne_nil _ _

theorem WellFormed.lookup {entries : Entries} (h : (Entry.directory entries).WellFormed)
    {name : String} {entry : Entry} (hlookup : List.lookup name entries = some entry) :
    entry.WellFormed := by
  obtain ⟨front, rest, hentries, -⟩ := List.lookup_eq_some_iff.1 hlookup
  cases h with
  | directory distinct named below => exact below (name, entry) (by simp [hentries])

/-- What is found by following names in a well-formed tree is well-formed. -/
theorem WellFormed.follow {above : List Entries} {entry found : Entry} {names : List String}
    (habove : ∀ entries ∈ above, (Entry.directory entries).WellFormed) (h : entry.WellFormed)
    (hfollow : Entry.follow above entry names = .ok found) : found.WellFormed := by
  fun_induction Entry.follow above entry names with
  | case1 above entry =>
    obtain rfl := Except.ok.inj hfollow
    exact h
  | case2 => cases hfollow
  | case3 above entries name names hstay ih => exact ih habove h hfollow
  | case4 entries names parent above hup ih =>
    obtain ⟨hparent, habove⟩ := List.forall_mem_cons.1 habove
    exact ih habove hparent hfollow
  | case5 entries names hup ih => exact ih habove wellFormed_empty hfollow
  | case6 => cases hfollow
  | case7 above entries name names hstay hup hshort entry hlookup ih =>
    exact ih (List.forall_mem_cons.2 ⟨h, habove⟩) (h.lookup hlookup) hfollow
  | case8 => cases hfollow

end Entry

/-! ### Making trees -/

namespace FileTree

open Entry

/-- Every directory of the tree has names that differ. -/
def WellFormed (t : FileTree) : Prop := (Entry.directory t.entries).WellFormed

theorem WellFormed.get {t : FileTree} (h : t.WellFormed) {path : String} {entry : Entry}
    (hget : t.get path = .ok entry) : entry.WellFormed := by
  unfold FileTree.get at hget
  split_ifs at hget
  · exact Entry.WellFormed.follow (by simp) wellFormed_empty hget
  · exact Entry.WellFormed.follow (by simp) h hget

theorem wellFormed_put {name : String} {entry : Entry} {entries : Entries} (hname : IsName name)
    (hentry : entry.WellFormed) (h : (Entry.directory entries).WellFormed) :
    (Entry.directory (put name entry entries)).WellFormed := by
  cases h with
  | directory distinct named below =>
  have hkept : ∀ e ∈ entries.filter (·.1 != name), e ∈ entries ∧ e.1 ≠ name := by
    intro e he
    simpa using List.mem_filter.1 he
  refine .directory ?_ ?_ ?_
  · rw [put, List.map_append, List.nodup_append]
    refine ⟨distinct.sublist (List.filter_sublist.map _), List.nodup_singleton _, ?_⟩
    intro a ha b hb
    obtain ⟨e, he, rfl⟩ := List.mem_map.1 ha
    rw [List.mem_singleton.1 hb]
    exact (hkept e he).2
  · rw [put, List.forall_mem_append]
    exact ⟨fun e he => named e (hkept e he).1, by simpa using hname⟩
  · rw [put, List.forall_mem_append]
    exact ⟨fun e he => below e (hkept e he).1, by simpa using hentry⟩

theorem wellFormed_grow {content : Option ByteArray} {names : List String} {entries : Entries}
    (hnames : ∀ name ∈ names, IsName name) (h : (Entry.directory entries).WellFormed) :
    (Entry.directory (grow content names entries)).WellFormed := by
  fun_induction grow content names entries with
  | case1 entries => exact h
  | case2 name entries bytes => exact wellFormed_put (hnames name (by simp)) (.file bytes) h
  | case3 name names entries below _ ih =>
    obtain ⟨hname, hnames⟩ := List.forall_mem_cons.1 hnames
    refine wellFormed_put hname (ih hnames ?_) h
    -- what is grown is the directory that is there already, or else a new one
    unfold below
    split
    next found hlookup => exact h.lookup hlookup
    next => exact wellFormed_empty

/-- The texts between slashes are made of characters of the text other than slashes. -/
theorem mem_of_mem_splitAtSlashes {t part : Text} (h : part ∈ splitAtSlashes t) {c : Char}
    (hc : c ∈ part) : c ∈ t ∧ c ≠ '/' := by
  fun_induction splitAtSlashes t generalizing part with
  | case1 =>
    rw [List.mem_singleton.1 h] at hc
    exact absurd hc List.not_mem_nil
  | case2 rest ih =>
    rcases List.mem_cons.1 h with rfl | hrest
    · exact absurd hc List.not_mem_nil
    · exact (ih hrest hc).imp_left (List.mem_cons_of_mem _)
  | case3 d rest hslash hnil ih =>
    rw [List.mem_singleton.1 h, List.mem_singleton] at hc
    rw [hc]
    exact ⟨List.mem_cons_self, hslash⟩
  | case4 d rest hslash first others hcons ih =>
    have hlater : ∀ part ∈ first :: others, c ∈ part → c ∈ d :: rest ∧ c ≠ '/' := by
      intro part hpart hc
      rw [← hcons] at hpart
      exact (ih hpart hc).imp_left (List.mem_cons_of_mem _)
    rcases List.mem_cons.1 h with rfl | hothers
    · rcases List.mem_cons.1 hc with rfl | hc
      · exact ⟨List.mem_cons_self, hslash⟩
      · exact hlater first List.mem_cons_self hc
    · exact hlater part (List.mem_cons_of_mem _ hothers) hc

theorem isName_of_mem_namesToGrow {path name : String} (hup : ".." ∉ namesOfPath path)
    (hnul : '\x00' ∉ path.toList) (h : name ∈ namesToGrow path) : IsName name := by
  obtain ⟨hmem, hkept⟩ := List.mem_filter.1 h
  obtain ⟨part, hpart, rfl⟩ := List.mem_map.1 hmem
  have hchars : ∀ c ∈ part, c ∈ path.toList ∧ c ≠ '/' :=
    fun c => mem_of_mem_splitAtSlashes hpart
  simp only [Bool.and_eq_true, bne_iff_ne] at hkept
  refine ⟨hkept.1, hkept.2, ?_, ?_, ?_⟩
  · rintro hdots
    rw [hdots] at hmem
    exact hup hmem
  · rw [String.toList_ofList]
    exact fun hslash => (hchars _ hslash).2 rfl
  · rw [String.toList_ofList]
    exact fun hzero => hnul (hchars _ hzero).1

/-- **Adding a file keeps a tree well-formed**, if its path goes down only. -/
theorem wellFormed_addFile {t : FileTree} (h : t.WellFormed) {path : String}
    (hup : ".." ∉ namesOfPath path) (hnul : '\x00' ∉ path.toList) (content : ByteArray) :
    (t.addFile path content).WellFormed :=
  wellFormed_grow (fun _ => isName_of_mem_namesToGrow hup hnul) h

theorem wellFormed_addDirectory {t : FileTree} (h : t.WellFormed) {path : String}
    (hup : ".." ∉ namesOfPath path) (hnul : '\x00' ∉ path.toList) :
    (t.addDirectory path).WellFormed :=
  wellFormed_grow (fun _ => isName_of_mem_namesToGrow hup hnul) h

end FileTree

end GraphTex
