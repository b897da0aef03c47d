import Mathlib.Data.List.Basic
import Minifier.CommandLine.Run

/-!
# Where outputs go

A path is a text, and different texts can lead to one place: doubled slashes, slashes at the end and
single dots do not count. So paths are compared by what does count, whether a path starts at the root
and the parts that it goes through (`Path.place`).

The output for a file has the stem of the file's name, and goes next to the file or into one folder for
all of them (`place_outputPath`). So two outputs are at one place exactly if the stems are the same, and
also the folders unless there is one for all; and an output takes the place of a file exactly if that
file has the name of the output and is in its folder (`nodup_outputPaths`).
-/

set_option autoImplicit false

namespace Minifier

open List

namespace Text

variable {separator : Char}

theorem split_cons (separator c : Char) (text : List Char) :
    ∃ first rest, split separator text = first :: rest ∧ split separator (c :: text) =
      if c = separator then [] :: first :: rest else (c :: first) :: rest := by
  cases parts : split separator text with
  | nil =>
    cases text with
    | nil => cases parts
    | cons c' text =>
      rw [split, foldr_cons] at parts
      split at parts
      · cases parts
      · split at parts <;> cases parts
  | cons first rest =>
    refine ⟨first, rest, rfl, ?_⟩
    rw [split, foldr_cons, ← split, parts]

/-- No part has a separator in it. -/
theorem not_mem_split {text part : List Char} (mem : part ∈ split separator text) : separator ∉ part := by
  induction text generalizing part with
  | nil => simp_all [split]
  | cons c text ih =>
    obtain ⟨first, rest, parts, whole⟩ := split_cons separator c text
    rw [whole] at mem
    rw [parts] at ih
    split at mem
    · rcases mem_cons.mp mem with rfl | mem
      · exact not_mem_nil
      · exact ih mem
    · rename_i other
      rcases mem_cons.mp mem with rfl | mem
      · simpa [Ne.symm other] using ih mem_cons_self
      · exact ih (mem_cons_of_mem _ mem)

theorem split_of_not_mem {text : List Char} (plain : separator ∉ text) : split separator text = [text] := by
  induction text with
  | nil => rfl
  | cons c text ih =>
    obtain ⟨first, rest, parts, whole⟩ := split_cons separator c text
    obtain ⟨other, plain⟩ := not_or.mp (mt mem_cons.mpr plain)
    rw [ih plain] at parts
    cases parts
    rw [whole, if_neg (Ne.symm other)]

/-- A separator splits. -/
theorem split_append (a b : List Char) :
    split separator (a ++ separator :: b) = split separator a ++ split separator b := by
  induction a with
  | nil =>
    obtain ⟨first, rest, parts, whole⟩ := split_cons separator separator b
    rw [nil_append, whole, if_pos rfl, parts]
    rfl
  | cons c a ih =>
    obtain ⟨first, rest, parts, whole⟩ := split_cons separator c a
    obtain ⟨first', rest', parts', whole'⟩ := split_cons separator c (a ++ separator :: b)
    rw [ih, parts, cons_append] at parts'
    obtain ⟨rfl, rfl⟩ := cons_eq_cons.mp parts'
    rw [cons_append, whole, whole']
    split <;> rfl

/-- Parts with separators between them are told apart again. -/
theorem split_join : ∀ (first : List Char) (rest : List (List Char)),
    (∀ part ∈ first :: rest, separator ∉ part) →
      split separator (join separator (first :: rest)) = first :: rest
  | first, [], plain => by simpa [join] using split_of_not_mem (plain first mem_cons_self)
  | first, next :: rest, plain => by
    obtain ⟨plainFirst, plain⟩ := forall_mem_cons.mp plain
    have whole : join separator (first :: next :: rest) =
        first ++ separator :: join separator (next :: rest) := by simp [join]
    rw [whole, split_append, split_of_not_mem plainFirst, split_join next rest plain]
    rfl

end Text

namespace Path

variable {parts rest : List (List Char)} {name path last part : List Char}

/-- The parts of a path that count. -/
def realParts (parts : List (List Char)) : List (List Char) := parts.filter (!isIdle ·)

/-- Where a path leads: whether it starts at the root, and the parts of it that count. -/
def place (path : List Char) : Bool × List (List Char) :=
  (path.head? = some '/', realParts (Text.split '/' path))

/-- What is in a folder, by its name. -/
def inside (folder : Bool × List (List Char)) (name : List Char) : Bool × List (List Char) :=
  (folder.1, folder.2 ++ [name])

/-- A place has one folder and one name. -/
theorem inside_inj {folder folder' : Bool × List (List Char)} {name' : List Char} :
    inside folder name = inside folder' name' ↔ name = name' ∧ folder = folder' := by
  rw [and_comm]
  simp [inside, Prod.ext_iff, and_assoc]

theorem realParts_append (a b : List (List Char)) :
    realParts (a ++ b) = realParts a ++ realParts b := filter_append ..

theorem realParts_cons (part : List Char) (parts : List (List Char)) :
    realParts (part :: parts) = realParts [part] ++ realParts parts := realParts_append [part] parts

/-- Parts at the end that do not count are no matter. -/
theorem realParts_trimParts (parts : List (List Char)) : realParts (trimParts parts) = realParts parts := by
  have whole : parts = trimParts parts ++ (parts.reverse.takeWhile isIdle).reverse := by
    rw [trimParts, ← reverse_append, takeWhile_append_dropWhile, reverse_reverse]
  have idle : realParts (parts.reverse.takeWhile isIdle).reverse = [] := by
    rw [realParts, filter_eq_nil_iff]
    intro part mem
    simpa using all_eq_true.mp all_takeWhile part (mem_reverse.mp mem)
  conv_rhs => rw [whole, realParts_append, idle, append_nil]

/-- The last part that is left does count. -/
theorem isIdle_of_getLast? (isLast : (trimParts parts).getLast? = some last) : isIdle last = false := by
  rw [trimParts, List.getLast?_reverse] at isLast
  have counts := List.head?_dropWhile_not isIdle parts.reverse
  rw [isLast] at counts
  simpa using counts

theorem mem_of_mem_trimParts (mem : part ∈ trimParts parts) : part ∈ parts :=
  mem_reverse.mp ((dropWhile_sublist _).subset (mem_reverse.mp mem))

/-- A path starts at the root if nothing stands before its first slash. -/
theorem head?_eq_slash {first : List Char} (parts : Text.split '/' path = first :: rest) :
    path.head? = some '/' ↔ first = [] ∧ rest ≠ [] := by
  cases path with
  | nil =>
    cases parts
    simp
  | cons c path =>
    obtain ⟨first', rest', -, whole⟩ := Text.split_cons '/' c path
    rw [whole] at parts
    split at parts <;> cases parts <;> simp_all

theorem place_eq {first : List Char} (parts : Text.split '/' path = first :: rest) :
    place path = (first.isEmpty && !rest.isEmpty, realParts (first :: rest)) := by
  rw [place, parts, Prod.mk.injEq]
  refine ⟨?_, rfl⟩
  rw [Bool.eq_iff_iff, decide_eq_true_iff, head?_eq_slash parts]
  simp

/-- A file is inside the folder that its path is split into, under the name that it is split into. -/
theorem place_of_split? {folder : List Char} (isSplit : split? path = some (folder, name)) :
    place path = inside (place folder) name ∧ '/' ∉ name := by
  unfold split? at isSplit
  cases parts : Text.split '/' path with
  | nil => simp [parts] at isSplit
  | cons first rest =>
    have plain : ∀ part ∈ first :: rest, '/' ∉ part := fun part mem => Text.not_mem_split (parts ▸ mem)
    rw [place_eq parts]
    simp only [parts] at isSplit
    cases isLast : (trimParts rest).getLast? with
    | none =>
      simp only [isLast, Option.ite_none_left_eq_some, Option.some.injEq, Prod.mk.injEq] at isSplit
      obtain ⟨counts, rfl, rfl⟩ := isSplit
      rw [List.getLast?_eq_none_iff] at isLast
      have idle : realParts rest = [] := by rw [← realParts_trimParts, isLast]; rfl
      refine ⟨?_, plain first mem_cons_self⟩
      rw [realParts_cons, idle]
      simp_all [isIdle, realParts, place, inside, Text.split]
    | some last =>
      simp only [isLast, Option.ite_none_left_eq_some, Option.some.injEq, Prod.mk.injEq] at isSplit
      obtain ⟨-, rfl, rfl⟩ := isSplit
      have mem := mem_of_mem_trimParts (mem_of_getLast? isLast)
      refine ⟨?_, plain last (mem_cons_of_mem _ mem)⟩
      generalize isBefore : trimParts (trimParts rest).dropLast = before
      have tail : realParts rest = realParts before ++ [last] := by
        rw [← isBefore, realParts_trimParts, ← realParts_trimParts rest]
        conv_lhs => rw [← dropLast_append_getLast? last isLast, realParts_append]
        simp [realParts, isIdle_of_getLast? isLast]
      have filled : rest.isEmpty = false := by
        rw [isEmpty_eq_false_iff]
        exact ne_nil_of_mem mem
      rw [realParts_cons, tail, filled]
      split
      case isTrue isRoot =>
        simp only [Bool.and_eq_true, List.isEmpty_iff] at isRoot
        simp [isRoot, inside, place, realParts, Text.split, isIdle]
      case isFalse other =>
        have parts : Text.split '/' (Text.join '/' (first :: before)) = first :: before := by
          refine Text.split_join first before fun part mem => plain part ?_
          rcases mem_cons.mp mem with rfl | mem
          · exact mem_cons_self
          · rw [← isBefore] at mem
            have mem := (dropLast_sublist _).subset (mem_of_mem_trimParts mem)
            exact mem_cons_of_mem _ (mem_of_mem_trimParts mem)
        rw [place_eq parts, realParts_cons first before]
        simp_all [inside]

/-- A name in a folder is inside it. -/
theorem place_join {folder : List Char} (plain : '/' ∉ name) (counts : isIdle name = false) :
    place (join folder name) = inside (place folder) name := by
  have last : realParts (Text.split '/' name) = [name] := by
    rw [Text.split_of_not_mem plain]
    simp [realParts, counts]
  unfold join
  split
  case isTrue noSlash =>
    simp only [Bool.or_eq_true, List.isEmpty_iff, decide_eq_true_eq] at noSlash
    rcases noSlash with rfl | isSlash
    · have noRoot : name.head? ≠ some '/' := fun isHead => plain (mem_of_mem_head? isHead)
      rw [nil_append, place, last]
      simpa [inside, place, realParts, Text.split, isIdle] using noRoot
    · obtain ⟨init, rfl⟩ := List.getLast?_eq_some_iff.mp isSlash
      rw [append_assoc, singleton_append, place, place, Text.split_append, Text.split_append,
        realParts_append, realParts_append, last]
      simp [inside, Text.split, realParts, isIdle]
  case isFalse slash =>
    simp only [Bool.or_eq_true, List.isEmpty_iff, decide_eq_true_eq, not_or] at slash
    rw [place, Text.split_append, realParts_append, last, List.head?_append_of_ne_nil _ slash.1]
    rfl

theorem mem_of_mem_splitName {c : Char} (mem : c ∈ (splitName name).1) : c ∈ name := by
  unfold splitName at mem
  have rest := (dropWhile_sublist (l := name.reverse) (· ≠ '.')).subset
  dsimp only at mem
  split at mem
  · rename_i dropped
    rw [dropped] at rest
    split at mem
    · exact mem
    · exact mem_reverse.mp (rest (mem_cons_of_mem _ (mem_reverse.mp mem)))
  · exact mem

/-- A file is inside its folder, under its name. -/
theorem place_of_fileName? (isName : fileName? path = some name) :
    ∃ folder, parent? path = some folder ∧ place path = inside (place folder) name ∧ '/' ∉ name := by
  obtain ⟨⟨folder, name'⟩, isSplit, rfl⟩ := Option.map_eq_some_iff.mp isName
  exact ⟨folder, by rw [parent?, isSplit]; rfl, place_of_split? isSplit⟩

end Path

/-- The name of the output for a file. -/
def outputName (path : String) : List Char := Path.stem path.toList ++ ".min.js".toList

/-- The folder that the output for a file goes into. -/
def outputFolder (config : Config) (path : String) : List Char :=
  (config.outDir.map String.toList).getD ((Path.parent? path.toList).getD path.toList)

/-- The output is in its folder, under its name. -/
theorem place_outputPath (config : Config) {path : String}
    (named : (Path.fileName? path.toList).isSome) : Path.place (outputPath config path).toList =
      Path.inside (Path.place (outputFolder config path)) (outputName path) := by
  obtain ⟨name, isName⟩ := Option.isSome_iff_exists.mp named
  obtain ⟨-, -, -, plain⟩ := Path.place_of_fileName? isName
  have plain : '/' ∉ outputName path := by
    rw [outputName, Path.stem, isName]
    intro mem
    rcases mem_append.mp mem with inStem | inEnd
    · exact plain (Path.mem_of_mem_splitName inStem)
    · revert inEnd
      decide
  have counts : Path.isIdle (outputName path) = false := by
    have long : 7 ≤ (outputName path).length := by simp [outputName]
    have filled : outputName path ≠ [] := fun short => by simp [short] at long
    have noDot : outputName path ≠ ['.'] := fun short => by simp [short] at long
    simp [Path.isIdle, filled, noDot]
  simp only [outputPath, String.toList_ofList]
  rw [← Path.place_join plain counts, outputFolder]
  cases config.outDir <;> rfl

/-- The outputs for some files are at different places exactly if no two files have the same stem, and the
same folder unless there is one folder for all outputs. An output takes the place of a file exactly if
that file has its name and is in its folder. -/
theorem nodup_outputPaths (config : Config) (files : List String)
    (named : ∀ path ∈ files, (Path.fileName? path.toList).isSome) :
    ((files.map fun path => Path.place (outputPath config path).toList).Nodup ↔
      files.Pairwise fun path path' => Path.stem path.toList = Path.stem path'.toList →
        config.outDir = none ∧
          (Path.parent? path.toList).map Path.place ≠ (Path.parent? path'.toList).map Path.place) ∧
    ∀ path ∈ files,
      Path.place (outputPath config path).toList ∈ files.map (fun file => Path.place file.toList) ↔
        ∃ file ∈ files, Path.fileName? file.toList = some (outputName path) ∧
          (Path.parent? file.toList).map Path.place = some (Path.place (outputFolder config path)) := by
  have split {path : String} (mem : path ∈ files) : ∃ name folder,
      Path.fileName? path.toList = some name ∧ Path.parent? path.toList = some folder ∧
        Path.place path.toList = Path.inside (Path.place folder) name := by
    obtain ⟨name, isName⟩ := Option.isSome_iff_exists.mp (named path mem)
    obtain ⟨folder, isFolder, place, -⟩ := Path.place_of_fileName? isName
    exact ⟨name, folder, isName, isFolder, place⟩
  constructor
  · rw [List.Nodup, pairwise_map]
    refine List.Pairwise.iff_of_mem fun {path path'} mem mem' => ?_
    obtain ⟨-, folder, -, isFolder, -⟩ := split mem
    obtain ⟨-, folder', -, isFolder', -⟩ := split mem'
    rw [Ne, place_outputPath config (named path mem), place_outputPath config (named path' mem'),
      Path.inside_inj, outputName, outputName, append_left_inj, outputFolder, outputFolder, isFolder,
      isFolder']
    cases config.outDir <;> simp
  · intro path mem
    rw [place_outputPath config (named path mem), mem_map]
    refine exists_congr fun file => and_congr_right fun mem => ?_
    obtain ⟨name, folder, isName, isFolder, place⟩ := split mem
    rw [place, Path.inside_inj, isName, isFolder, Option.map_some, Option.some_inj, Option.some_inj]

/-- Next to their files, outputs with the same stem are apart, and no file is written over. -/
theorem nodup_outputPaths_folders :
    let files := ["src/lib/x.js", "src/x.js"]
    let places := files.map fun path => Path.place (outputPath {} path).toList
    (∀ path ∈ files, (Path.fileName? path.toList).isSome) ∧ places.Nodup ∧
      ∀ place ∈ places, place ∉ files.map fun file => Path.place file.toList := by
  intro files places
  have named : ∀ path ∈ files, (Path.fileName? path.toList).isSome := by decide
  obtain ⟨apart, taken⟩ := nodup_outputPaths {} files named
  refine ⟨named, apart.mpr (by decide), forall_mem_map.mpr fun path mem => ?_⟩
  rw [taken path mem]
  revert path
  decide

/-- In one folder they are not apart, and neither are those for files that differ in the extension, however
the paths are written. And a file may have the name of an output. -/
theorem outputPath_collides :
    let dist : Config := { outDir := some "dist" }
    outputPath dist "src/lib/x.js" = outputPath dist "src/x.js" ∧
      Path.place (outputPath {} "a//b/x.js").toList = Path.place (outputPath {} "a/b/x.mjs").toList ∧
      outputPath {} "x.js" = "x.min.js" := by
  decide

end Minifier
