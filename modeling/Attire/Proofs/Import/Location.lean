import Attire.Import.Location
import Mathlib.Data.List.TakeWhile

namespace Attire.Directory

/-! Files of modules below a root directory. -/

variable {text root name segment : List Char} {isMark : Char → Bool}

/-! Segments. -/

theorem splitAt_eq_splitOnP (isMark : Char → Bool) (text : List Char) :
    splitAt isMark text = text.splitOnP isMark := by
  induction text with
  | nil => rfl
  | cons c rest ih =>
    rw [List.splitOnP_cons_eq_if_modifyHead, ← ih, splitAt]
    split
    · rfl
    · cases hrest : splitAt isMark rest with
      | nil => exact absurd (ih.symm.trans hrest) (List.splitOnP_ne_nil isMark rest)
      | cons part others => rfl

theorem unmarked_of_mem_splitOnP (h : segment ∈ text.splitOnP isMark) {c : Char}
    (hc : c ∈ segment) : isMark c = false := by
  induction text generalizing segment with
  | nil =>
    rw [List.splitOnP_nil, List.mem_singleton] at h
    subst h
    cases hc
  | cons first rest ih =>
    rw [List.splitOnP_cons_eq_if_modifyHead] at h
    split at h
    · rcases List.mem_cons.mp h with rfl | h
      · cases hc
      · exact ih h hc
    case isFalse hfirst =>
      obtain ⟨part, others, hrest⟩ := List.exists_cons_of_ne_nil (List.splitOnP_ne_nil isMark rest)
      rw [hrest, List.modifyHead_cons] at h
      rcases List.mem_cons.mp h with rfl | h
      · rcases List.mem_cons.mp hc with rfl | hc
        · exact Bool.not_eq_true _ ▸ hfirst
        · exact ih (hrest ▸ List.mem_cons_self) hc
      · exact ih (hrest ▸ List.mem_cons_of_mem _ h) hc

theorem isPlain_iff : isPlain segment = true ↔
    ¬(segment = [] ∨ segment = ['.'] ∨ segment = ['.', '.'] ∨ '\\' ∈ segment) := by
  simp [isPlain, and_assoc]

/-! Joined paths. -/

/-- What paths below a root begin with. -/
def below (root : List Char) : List Char :=
  if root.isEmpty || root.getLast? = some '/' then root else root ++ ['/']

theorem join_eq (path name : List Char) : join path name = below path ++ name := by
  unfold join below
  split <;> simp

theorem below_join (hname : name ≠ []) (hslash : '/' ∉ name) (path : List Char) :
    below (join path name) = join path name ++ ['/'] := by
  have hlast : (below path ++ name).getLast? = some (name.getLast hname) := by
    rw [List.getLast?_append, List.getLast?_eq_some_getLast hname, Option.some_or]
  have hopen : name.getLast hname ≠ '/' := fun heq => hslash (heq ▸ List.getLast_mem hname)
  rw [join_eq, below, hlast, if_neg]
  simp [hname, hopen]

theorem joinAll_eq (extension : List Char) {folders : List (List Char)}
    (hfolders : ∀ folder ∈ folders, folder ≠ [] ∧ '/' ∉ folder) (path name : List Char) :
    joinAll extension path (folders ++ [name]) =
      below path ++ ['/'].intercalate (folders ++ [setExtension extension name]) := by
  induction folders generalizing path with
  | nil => exact (join_eq _ _).trans (congrArg _ List.intercalate_singleton.symm)
  | cons folder rest ih =>
    obtain ⟨hname, hslash⟩ := hfolders folder List.mem_cons_self
    have hcons : joinAll extension path (folder :: (rest ++ [name])) =
        joinAll extension (join path folder) (rest ++ [name]) := by
      cases rest <;> rfl
    rw [List.cons_append, hcons, ih fun other hmem => hfolders other (List.mem_cons_of_mem _ hmem),
      below_join hname hslash, join_eq, List.cons_append, List.intercalate_cons_of_ne_nil (by simp)]
    simp only [List.append_assoc]

/-! Stems of file names. -/

/-- A dot that is not the first character cuts a name at the last one. -/
theorem stem_cases (name : List Char) : stem name = name ∧ '.' ∉ name.tail ∨
    ∃ rest, name = stem name ++ '.' :: rest ∧ stem name ≠ [] ∧ '.' ∉ rest := by
  have hname : name = (name.reverse.dropWhile (· ≠ '.')).reverse ++
      (name.reverse.takeWhile (· ≠ '.')).reverse := by
    rw [← List.reverse_append, List.takeWhile_append_dropWhile, List.reverse_reverse]
  have hrest : '.' ∉ (name.reverse.takeWhile (· ≠ '.')).reverse := fun hmem => by
    have hother := List.mem_takeWhile_imp (List.mem_reverse.mp hmem)
    simp at hother
  have hdot := List.head?_dropWhile_not (· ≠ '.') name.reverse
  unfold stem
  revert hname hrest hdot
  generalize (name.reverse.takeWhile (· ≠ '.')).reverse = rest
  generalize name.reverse.dropWhile (· ≠ '.') = back
  intro hname hrest hdot
  match back with
  | [] =>
    subst hname
    exact .inl ⟨rfl, fun hmem => hrest (List.mem_of_mem_tail hmem)⟩
  | [dot] =>
    subst hname
    exact .inl ⟨rfl, hrest⟩
  | dot :: next :: front =>
    obtain rfl : dot = '.' := by simpa using hdot
    refine .inr ⟨rest, ?_, by simp, hrest⟩
    rw [hname]
    simp

theorem stem_eq_self_iff : stem name = name ↔ '.' ∉ name.tail := by
  rcases stem_cases name with ⟨hstem, htail⟩ | ⟨rest, hname, hne, -⟩
  · exact ⟨fun _ => htail, fun _ => hstem⟩
  · constructor
    · intro hstem
      rw [hstem] at hname
      simp at hname
    · intro htail
      refine absurd ?_ htail
      obtain ⟨first, others, hstem⟩ := List.exists_cons_of_ne_nil hne
      rw [hname, hstem]
      simp

theorem stem_subset (name : List Char) : stem name ⊆ name := by
  rcases stem_cases name with ⟨hstem, -⟩ | ⟨rest, hname, -⟩
  · exact fun c hmem => hstem ▸ hmem
  · intro c hmem
    rw [hname]
    exact List.mem_append_left _ hmem

/-- The name of the file for a last segment. -/
def fileName (segment : List Char) : List Char := stem segment ++ ".json".toList

theorem fileName_inj {other : List Char} : fileName segment = fileName other ↔
    stem segment = stem other :=
  List.append_left_inj _

theorem fileName_eq_iff : fileName segment = segment ++ ".json".toList ↔ '.' ∉ segment.tail :=
  (List.append_left_inj _).trans stem_eq_self_iff

theorem mem_fileName {c : Char} (h : c ∈ fileName segment) : c ∈ segment ∨ c ∈ ".json".toList :=
  (List.mem_append.mp h).imp (fun hmem => stem_subset segment hmem) id

theorem isPlain_fileName (h : isPlain segment) : isPlain (fileName segment) := by
  have hlength : 4 ≤ (fileName segment).length := by
    rw [fileName, List.length_append]
    exact Nat.le_add_left_of_le (by decide)
  rw [isPlain_iff] at h ⊢
  rintro (heq | heq | heq | hmem)
  · rw [heq] at hlength
    exact absurd hlength (by decide)
  · rw [heq] at hlength
    exact absurd hlength (by decide)
  · rw [heq] at hlength
    exact absurd hlength (by decide)
  · rcases mem_fileName hmem with hmem | hmem
    · exact h (.inr (.inr (.inr hmem)))
    · exact absurd hmem (by decide)

theorem slash_notMem_fileName (h : '/' ∉ segment) : '/' ∉ fileName segment := fun hmem =>
  (mem_fileName hmem).elim h (by decide)

/-! Files. -/

theorem segments_eq (url : List Char) :
    segments url = url.splitOnP fun c => c = ':' || c = '/' :=
  splitAt_eq_splitOnP _ url

theorem slash_notMem_of_mem_segments {url : List Char} (h : segment ∈ segments url) :
    '/' ∉ segment := fun hmem => by
  rw [segments_eq] at h
  exact Bool.noConfusion (unmarked_of_mem_splitOnP h hmem)

theorem pathFor?_eq_none {directory : Directory} {url : String} :
    directory.pathFor? url = none ↔ ∃ segment ∈ segments url.toList, ¬isPlain segment := by
  unfold pathFor?
  dsimp only
  split
  case isTrue hplain => simpa using hplain
  case isFalse hplain => simpa using hplain

/-- The file lies below the root: folders of the leading segments, then the file of the last one. -/
theorem pathFor?_eq_some {root url path : String} :
    ({ root } : Directory).pathFor? url = some path ↔ ∃ folders name,
      segments url.toList = folders ++ [name] ∧ (∀ segment ∈ folders ++ [name], isPlain segment) ∧
      path.toList = below root.toList ++ ['/'].intercalate (folders ++ [fileName name]) := by
  have hsome : segments url.toList ≠ [] := by
    rw [segments_eq]
    exact List.splitOnP_ne_nil _ _
  obtain ⟨folders, name, hsegments⟩ : ∃ folders name, segments url.toList = folders ++ [name] :=
    ⟨_, _, (List.dropLast_concat_getLast hsome).symm⟩
  have hjoin (hplain : ∀ segment ∈ folders ++ [name], isPlain segment) :
      joinAll "json".toList root.toList (folders ++ [name]) =
        below root.toList ++ ['/'].intercalate (folders ++ [fileName name]) := by
    refine joinAll_eq _ (fun folder hmem => ⟨fun hnone => ?_, ?_⟩) _ _
    · exact isPlain_iff.mp (hplain folder (List.mem_append_left _ hmem)) (.inl hnone)
    · exact slash_notMem_of_mem_segments (hsegments ▸ List.mem_append_left _ hmem)
  unfold pathFor?
  dsimp only
  rw [hsegments, Option.ite_none_right_eq_some, List.all_eq_true, Option.some_inj]
  constructor
  · rintro ⟨hplain, rfl⟩
    exact ⟨folders, name, rfl, hplain, (String.toList_ofList ..).trans (hjoin hplain)⟩
  · rintro ⟨folders', name', heq, hplain, hpath⟩
    obtain ⟨rfl, hname⟩ := List.append_inj' heq rfl
    obtain rfl := List.singleton_inj.mp hname
    refine ⟨hplain, String.toList_inj.mp ?_⟩
    rw [String.toList_ofList, hjoin hplain, hpath]

/-- Paths with the same names are the same. -/
theorem intercalate_inj {parts others : List (List Char)} (hparts : ∀ part ∈ parts, '/' ∉ part)
    (hothers : ∀ part ∈ others, '/' ∉ part) (hne : parts ≠ []) (hne' : others ≠ []) :
    ['/'].intercalate parts = ['/'].intercalate others ↔ parts = others := by
  constructor
  · intro heq
    rw [← List.splitOn_intercalate '/' hparts hne, heq, List.splitOn_intercalate '/' hothers hne']
  · rintro rfl
    rfl

theorem slash_notMem_of_mem_names {url : List Char} {folders : List (List Char)}
    (hsegments : segments url = folders ++ [name]) {part : List Char}
    (hmem : part ∈ folders ++ [fileName name]) : '/' ∉ part := by
  rcases List.mem_append.mp hmem with hmem | hmem
  · exact slash_notMem_of_mem_segments (hsegments ▸ List.mem_append_left _ hmem)
  · obtain rfl := List.mem_singleton.mp hmem
    exact slash_notMem_fileName
      (slash_notMem_of_mem_segments (hsegments ▸ List.mem_append_right _ List.mem_cons_self))

theorem isPlain_of_mem_names {folders : List (List Char)}
    (hplain : ∀ segment ∈ folders ++ [name], isPlain segment) {part : List Char}
    (hmem : part ∈ folders ++ [fileName name]) : isPlain part := by
  rcases List.mem_append.mp hmem with hmem | hmem
  · exact hplain part (List.mem_append_left _ hmem)
  · obtain rfl := List.mem_singleton.mp hmem
    exact isPlain_fileName (hplain name (List.mem_append_right _ List.mem_cons_self))

/-- Addresses share a file if they have the same folders and the same stem. -/
theorem pathFor?_eq_some_of_split {root other path : String} {folders : List (List Char)}
    {url : List Char} (hsegments : segments url = folders ++ [name])
    (hplain : ∀ segment ∈ folders ++ [name], isPlain segment)
    (hfile : path.toList =
      below root.toList ++ ['/'].intercalate (folders ++ [fileName name])) :
    ({ root } : Directory).pathFor? other = some path ↔ ∃ last,
      segments other.toList = folders ++ [last] ∧ isPlain last ∧ stem last = stem name := by
  rw [pathFor?_eq_some]
  constructor
  · rintro ⟨folders', last, hother, hplain', hfile'⟩
    have hsame := List.append_cancel_left (hfile.symm.trans hfile')
    rw [intercalate_inj (fun _ => slash_notMem_of_mem_names hsegments)
      (fun _ => slash_notMem_of_mem_names hother) (by simp) (by simp)] at hsame
    obtain ⟨rfl, hlast⟩ := List.append_inj' hsame rfl
    refine ⟨last, hother, hplain' last (List.mem_append_right _ List.mem_cons_self), ?_⟩
    exact fileName_inj.mp (List.singleton_inj.mp hlast).symm
  · rintro ⟨last, hother, hlast, hstem⟩
    refine ⟨folders, last, hother, fun segment hmem => ?_, ?_⟩
    · rcases List.mem_append.mp hmem with hmem | hmem
      · exact hplain segment (List.mem_append_left _ hmem)
      · obtain rfl := List.mem_singleton.mp hmem
        exact hlast
    · rw [hfile, fileName_inj.mpr hstem]

/-- Addresses lead nowhere if a segment is empty, is a dot or two, or holds a backslash.  Every
other one leads to a file below the root, past folders that its leading segments name, and no name
on the way there leads back up.  The file is named by the last segment with its extension replaced:
the whole segment is in the name only if it has no dot after its first character, and addresses
that differ in no more than such an extension share a file. -/
theorem files_below_root (root url : String) :
    let directory : Directory := { root }
    let split (url : String) := url.toList.splitOnP fun c => c = ':' || c = '/'
    (directory.pathFor? url = none ↔ ∃ segment ∈ split url,
      segment = [] ∨ segment = ['.'] ∨ segment = ['.', '.'] ∨ '\\' ∈ segment) ∧
    ∀ path, directory.pathFor? url = some path → ∃ folders name,
      split url = folders ++ [name] ∧
      path.toList = below root.toList ++ ['/'].intercalate (folders ++ [fileName name]) ∧
      (∀ part ∈ folders ++ [fileName name], isPlain part ∧ '/' ∉ part) ∧
      (fileName name = name ++ ".json".toList ↔ '.' ∉ name.tail) ∧
      ∀ other, directory.pathFor? other = some path ↔ ∃ last,
        split other = folders ++ [last] ∧ isPlain last ∧ stem last = stem name := by
  intro directory split
  have hsplit : ∀ url, split url = segments url.toList := fun url => (segments_eq _).symm
  simp only [hsplit]
  refine ⟨?_, fun path hpath => ?_⟩
  · rw [pathFor?_eq_none]
    simp only [isPlain_iff, not_not]
  · obtain ⟨folders, name, hsegments, hplain, hfile⟩ := pathFor?_eq_some.mp hpath
    exact ⟨folders, name, hsegments, hfile,
      fun _ hmem => ⟨isPlain_of_mem_names hplain hmem, slash_notMem_of_mem_names hsegments hmem⟩,
      fileName_eq_iff, fun _ => pathFor?_eq_some_of_split hsegments hplain hfile⟩

/-- Addresses that differ in what follows a dot share a file. -/
theorem dotted_names_share_file :
    ({ root := "/modules" } : Directory).pathFor? "a.b" = some "/modules/a.json" ∧
    ({ root := "/modules" } : Directory).pathFor? "a.c" = some "/modules/a.json" := by
  have hfirst : ({ root := "/modules" } : Directory).pathFor? "a.b" = some "/modules/a.json" := rfl
  obtain ⟨folders, name, hsplit, -, -, -, hshared⟩ :=
    (files_below_root "/modules" "a.b").2 _ hfirst
  have hwhole : [] ++ ["a.b".toList] = folders ++ [name] := hsplit
  obtain ⟨rfl, hname⟩ := List.append_inj' hwhole rfl
  obtain rfl := List.singleton_inj.mp hname
  exact ⟨hfirst, (hshared "a.c").mpr ⟨"a.c".toList, rfl, rfl, rfl⟩⟩

end Attire.Directory
