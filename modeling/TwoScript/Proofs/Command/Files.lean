import Mathlib.Data.List.Induction
import TwoScript.Command.Disk
import TwoScript.Editor.Store

/-!
# Files and paths

What writing a file does to the others: the directories stay the same, so every path leads
to where it led before, and only the file that was written holds something else. Two paths
with different file names never lead to the same file, and replacing the extension of a path
keeps it only if it has that extension already.
-/

namespace TwoScript

/-! ## File names -/

theorem folder_append_fileName (path : String) : folder path ++ fileName path = path.toList := by
  rw [folder, fileName, ← List.reverse_append, List.takeWhile_append_dropWhile,
    List.reverse_reverse]

theorem slash_not_mem_fileName (path : String) : '/' ∉ fileName path := by
  intro member
  have passed := List.all_eq_true.mp List.all_takeWhile _ (List.mem_reverse.mp member)
  simp at passed

theorem passes_of_not_mem {d : Char} {cs : List Char} (h : d ∉ cs) :
    ∀ c ∈ cs.reverse, (c != d) = true := by
  intro c member
  rw [bne_iff_ne]
  rintro rfl
  exact h (List.mem_reverse.mp member)

/-- Text that is empty or ends in a slash, as everything in front of a file name. -/
def EndsInSlash (cs : List Char) : Prop :=
  cs = [] ∨ ∃ front, cs = front ++ ['/']

theorem endsInSlash_folder (path : String) : EndsInSlash (folder path) := by
  unfold folder
  cases rest : path.toList.reverse.dropWhile (· != '/') with
  | nil => exact .inl rfl
  | cons c cs =>
      have stopped := List.head?_dropWhile_not (· != '/') path.toList.reverse
      rw [rest] at stopped
      have slash : c = '/' := by simpa using stopped
      exact .inr ⟨cs.reverse, by rw [slash, List.reverse_cons]⟩

theorem EndsInSlash.fileName_append {cs name : List Char} (h : EndsInSlash cs)
    (plain : '/' ∉ name) : fileName (String.ofList (cs ++ name)) = name := by
  rw [fileName, String.toList_ofList, List.reverse_append,
    List.takeWhile_append_of_pos (passes_of_not_mem plain)]
  obtain rfl | ⟨front, rfl⟩ := h <;> simp

/-! ## Extensions -/

/-- The name of a file has this extension if a dot divides it from something in front. -/
def HasExtension (extension : List Char) (name : List Char) : Prop :=
  ∃ stem, stem ≠ [] ∧ name = stem ++ '.' :: extension

theorem replaceExtension_eq_self_iff {extension name : List Char} (plain : '.' ∉ extension) :
    replaceExtension extension name = name ↔ HasExtension extension name := by
  constructor
  · intro same
    simp only [replaceExtension] at same
    split at same
    · have lengths := congrArg List.length same
      simp at lengths
    · rename_i stem
      exact ⟨_, by simpa using stem, same.symm⟩
  · rintro ⟨stem, written, rfl⟩
    have last : (stem ++ '.' :: extension).reverse.dropWhile (· != '.') =
        '.' :: stem.reverse := by
      simp [List.dropWhile_append_of_pos (passes_of_not_mem plain)]
    rw [replaceExtension, last]
    simp [written]

theorem slash_not_mem_replaceExtension {extension name : List Char} (plain : '/' ∉ extension)
    (h : '/' ∉ name) : '/' ∉ replaceExtension extension name := by
  have stem : '/' ∉ ((name.reverse.dropWhile (· != '.')).drop 1).reverse := by
    intro member
    have inner := List.mem_of_mem_drop (List.mem_reverse.mp member)
    exact h (List.mem_reverse.mp ((List.dropWhile_sublist _).mem inner))
  simp only [replaceExtension, List.mem_append, List.mem_cons, plain, not_or]
  refine ⟨?_, by decide, id⟩
  split
  · exact h
  · exact stem

theorem fileName_withExtension {path extension : String} (plain : '/' ∉ extension.toList) :
    fileName (withExtension path extension) =
      replaceExtension extension.toList (fileName path) :=
  (endsInSlash_folder path).fileName_append
    (slash_not_mem_replaceExtension plain (slash_not_mem_fileName path))

theorem withExtension_eq_self_iff {path extension : String} (plain : '.' ∉ extension.toList) :
    withExtension path extension = path ↔ HasExtension extension.toList (fileName path) := by
  have whole : path = String.ofList (folder path ++ fileName path) := by
    rw [folder_append_fileName, String.ofList_toList]
  rw [← replaceExtension_eq_self_iff plain]
  constructor
  · intro same
    rw [withExtension, ← String.toList_inj, String.toList_ofList,
      ← folder_append_fileName path] at same
    exact List.append_cancel_left same
  · intro same
    rw [withExtension, same, ← whole]

/-! ## Directories -/

namespace Files

theorem toList_directoryPath_concat (parts : List String) (part : String) :
    (directoryPath (parts ++ [part])).toList =
      (directoryPath parts).toList ++ part.toList ++ ['/'] := by
  simp [directoryPath, String.toList_join]

theorem endsInSlash_directoryPath (parts : List String) :
    EndsInSlash (directoryPath parts).toList := by
  cases parts using List.reverseRecOn with
  | nil => exact .inl rfl
  | append_singleton parts part => exact .inr ⟨_, toList_directoryPath_concat parts part⟩

theorem hasBelow_iff {f : Files} {path : String} :
    f.hasBelow path = true ↔ ∃ entry ∈ f.entries, path.toList <+: entry.1.toList := by
  simp [hasBelow, List.any_eq_true, List.isPrefixOf_iff_prefix]

theorem hasBelow_mono {f : Files} {path longer : String} (h : path.toList <+: longer.toList)
    (below : f.hasBelow longer = true) : f.hasBelow path = true := by
  obtain ⟨entry, member, starts⟩ := hasBelow_iff.mp below
  exact hasBelow_iff.mpr ⟨entry, member, h.trans starts⟩

theorem hasDirectory_concat (f : Files) (parts : List String) (part : String) :
    f.hasDirectory (parts ++ [part]) = f.hasBelow (directoryPath (parts ++ [part])) := by
  simp [hasDirectory]

theorem hasDirectory_dropLast {f : Files} {parts : List String}
    (h : f.hasDirectory parts = true) : f.hasDirectory parts.dropLast = true := by
  cases parts using List.reverseRecOn with
  | nil => rfl
  | append_singleton parts part =>
      rw [hasDirectory_concat] at h
      have starts : (directoryPath parts).toList <+: (directoryPath (parts ++ [part])).toList := by
        rw [toList_directoryPath_concat, List.append_assoc]
        exact List.prefix_append ..
      simp [hasDirectory, hasBelow_mono starts h]

/-- Steps lead to directories that exist. -/
theorem hasDirectory_of_enter? {f : Files} {parts steps last : List String}
    (h : f.hasDirectory parts = true) (entered : f.enter? parts steps = some last) :
    f.hasDirectory last = true := by
  fun_induction enter? f parts steps with
  | case1 parts =>
      cases entered
      exact h
  | case2 parts step steps stays ih => exact ih h entered
  | case3 | case6 => cases entered
  | case4 parts steps _ _ ih => exact ih (hasDirectory_dropLast h) entered
  | case5 parts step steps _ _ down ih => exact ih down entered

/-! ## Where paths lead -/

/-- A path leads into a directory that exists, to a file with its own name. -/
theorem resolve?_eq_some {f : Files} {path name : String} (h : f.resolve? path = some name) :
    ∃ parts, f.hasDirectory parts = true ∧
      name.toList = (directoryPath parts).toList ++ fileName path := by
  unfold resolve? at h
  simp only at h
  split at h
  · cases h
  · obtain ⟨parts, entered, rfl⟩ := Option.map_eq_some_iff.mp h
    exact ⟨parts, hasDirectory_of_enter? rfl entered, by simp⟩

theorem fileName_of_resolve? {f : Files} {path name : String} (h : f.resolve? path = some name) :
    fileName name = fileName path := by
  obtain ⟨parts, -, whole⟩ := resolve?_eq_some h
  rw [← String.ofList_toList (s := name), whole]
  exact (endsInSlash_directoryPath parts).fileName_append (slash_not_mem_fileName path)

/-- Where paths lead depends on the directories only. -/
theorem resolve?_congr {f f' : Files}
    (same : ∀ parts, f'.hasDirectory parts = f.hasDirectory parts) (path : String) :
    f'.resolve? path = f.resolve? path := by
  have enter (steps : List String) : ∀ parts, f'.enter? parts steps = f.enter? parts steps := by
    induction steps with
    | nil => exact fun _ => rfl
    | cons step steps ih =>
        intro parts
        simp only [enter?, ih, same]
  simp only [resolve?, enter]

/-! ## Writing a file -/

/-- A path is writable if it leads to a place for a file and no directory stands there. -/
def Writable (f : Files) (path : String) : Prop :=
  ∃ name, f.resolve? path = some name ∧ f.hasBelow (name ++ "/") = false

/-- The files after one of them was given these bytes: where its path led to, a file holds
them, and all other files are what they were, by their paths and one by one. -/
structure Updated (f f' : Files) (path : String) (bytes : ByteArray) : Prop where
  holds : f'.get? path = some bytes
  others : ∀ other, f.resolve? other ≠ f.resolve? path → f'.get? other = f.get? other
  entries : ∀ name, f.resolve? path ≠ some name → f'.entries.lookup name = f.entries.lookup name

section

variable {f f' : Files} {path : String} {bytes : ByteArray}

theorem put?_eq_some_iff : f.put? path bytes = some f' ↔
    ∃ name, f.resolve? path = some name ∧ f.hasBelow (name ++ "/") = false ∧
      f' = ⟨(name, bytes) :: f.entries.filter (·.1 != name)⟩ := by
  unfold put?
  cases f.resolve? path with
  | none => simp
  | some name =>
      cases taken : f.hasBelow (name ++ "/")
      · simp only [taken, Option.some.injEq, exists_eq_left']
        simp [eq_comm]
      · simp [taken]

theorem exists_put?_iff : (∃ f', f.put? path bytes = some f') ↔ f.Writable path := by
  simp [put?_eq_some_iff, Writable]

/-- A text that ends in a slash and begins a path begins the folder of the path. -/
theorem prefix_of_prefix_append {front cs name : List Char} (plain : '/' ∉ name)
    (h : front ++ ['/'] <+: cs ++ name) : front ++ ['/'] <+: cs := by
  obtain starts | starts := List.prefix_or_prefix_of_prefix h (List.prefix_append cs name)
  · exact starts
  · obtain ⟨rest, whole⟩ := starts
    rw [← whole, List.prefix_append_right_inj] at h
    cases rest using List.reverseRecOn with
    | nil => exact ⟨[], by simp [← whole]⟩
    | append_singleton rest c =>
        -- What goes beyond the folder lies in the name and ends in a slash.
        rw [← List.append_assoc] at whole
        obtain ⟨-, last⟩ := List.append_inj' whole rfl
        have slash : '/' ∈ rest ++ [c] := by
          simp [last]
        exact absurd (h.subset slash) plain

/-- Writing a file makes no directory and removes none. -/
theorem hasDirectory_put? (h : f.put? path bytes = some f') (parts : List String) :
    f'.hasDirectory parts = f.hasDirectory parts := by
  obtain ⟨name, leads, -, rfl⟩ := put?_eq_some_iff.mp h
  obtain ⟨above, inside, whole⟩ := resolve?_eq_some leads
  cases parts using List.reverseRecOn with
  | nil => rfl
  | append_singleton parts part =>
      have slash := toList_directoryPath_concat parts part
      rw [hasDirectory_concat, hasDirectory_concat, Bool.eq_iff_iff]
      refine ⟨fun below => ?_, fun below => ?_⟩
      · obtain ⟨entry, member, starts⟩ := hasBelow_iff.mp below
        obtain rfl | kept := List.mem_cons.mp member
        · -- The directory of the file existed before.
          rw [whole, slash] at starts
          have begins := prefix_of_prefix_append (slash_not_mem_fileName path) starts
          rw [← slash] at begins
          refine hasBelow_mono begins ?_
          obtain topmost | below := Bool.or_eq_true_iff.mp inside
          · rw [List.isEmpty_iff.mp topmost, slash] at begins
            simp [directoryPath] at begins
          · exact below
        · exact hasBelow_iff.mpr ⟨entry, (List.mem_filter.mp kept).1, starts⟩
      · obtain ⟨entry, member, starts⟩ := hasBelow_iff.mp below
        by_cases same : entry.1 = name
        · exact hasBelow_iff.mpr ⟨(name, bytes), List.mem_cons_self, same ▸ starts⟩
        · refine hasBelow_iff.mpr ⟨entry, List.mem_cons_of_mem _ ?_, starts⟩
          exact List.mem_filter.mpr ⟨member, bne_iff_ne.mpr same⟩

theorem updated_of_put? (h : f.put? path bytes = some f') : f.Updated f' path bytes := by
  have leads' := resolve?_congr (hasDirectory_put? h)
  obtain ⟨name, leads, -, rfl⟩ := put?_eq_some_iff.mp h
  have kept (other : String) (ne : other ≠ name) :
      List.lookup other ((name, bytes) :: f.entries.filter (·.1 != name)) =
        f.entries.lookup other := by
    rw [← lookup_filter_of_ne ne f.entries]
    simp [List.lookup_cons, beq_false_of_ne ne]
  refine ⟨?_, fun other elsewhere => ?_, fun other elsewhere => kept other ?_⟩
  · simp [get?, leads', leads]
  · unfold get?
    rw [leads']
    cases found : f.resolve? other with
    | none => rfl
    | some file =>
        refine kept file ?_
        rintro rfl
        exact elsewhere (found.trans leads.symm)
  · rintro rfl
    exact elsewhere leads

/-! ## Text -/

theorem fromUTF8?_eq_some_iff {text : String} :
    String.fromUTF8? bytes = some text ↔ bytes = text.toUTF8 := by
  unfold String.fromUTF8?
  constructor
  · intro decoded
    split at decoded
    · cases decoded
      rfl
    · cases decoded
  · rintro rfl
    exact dif_pos text.isValidUTF8

/-- A text is read from its own bytes only. -/
theorem read_eq_ok_iff {text : String} :
    f.read path = .ok text ↔ f.get? path = some text.toUTF8 := by
  unfold read decodeText
  cases f.get? path with
  | none => simp
  | some bytes =>
      rw [Option.some.injEq, ← fromUTF8?_eq_some_iff]
      cases decoded : String.fromUTF8? bytes <;> simp [decoded]

end

end Files

end TwoScript
