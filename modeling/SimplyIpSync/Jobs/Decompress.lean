import SimplyIpSync.Crypto

/-!
# Archive expansion (`src/jobs/decompress.rs`)

`decompress_if_zip` joins the members of an archive under one budget.  Reading archives is the work
of the `zip` crate: `ZipArchive` is what opening some bytes gives, and `Readable` says that an
archive opens and all of its members can be read.

The budget of a member is what the output so far leaves of the limit.  A newline put before the
member is not charged to it, an output that has reached the limit admits no further member, and a
list of directories passes for a list of files; `decompress_exact_iff` shows that these three are the
only ways to depart from the join of the members.
-/

namespace SimplyIpSync.Jobs.Decompress

open SimplyIpSync.Crypto

/-! ### The code -/

/-- `DecompressError`. -/
inductive DecompressError
  | openArchive (msg : String)
  | emptyArchive
  | readMember (msg : String)
  | tooLarge (limitBytes : UInt64)
  deriving DecidableEq, Repr

/-- The texts of the errors. -/
def DecompressError.display : DecompressError → String
  | .openArchive msg => "failed to open zip archive: " ++ msg
  | .emptyArchive => "zip archive contains no files"
  | .readMember msg => "failed to read zip archive member: " ++ msg
  | .tooLarge limitBytes =>
      "decompressed payload exceeds the " ++ toString limitBytes.toNat ++
        "-byte MAX_DECOMPRESSED_BYTES limit; aborting to avoid a decompression-bomb memory spike"

/-- `ZIP_LOCAL_HEADER_MAGIC`. -/
def zipLocalHeaderMagic : Bytes := [0x50, 0x4b, 0x03, 0x04]

/-- `ZIP_EMPTY_ARCHIVE_MAGIC`. -/
def zipEmptyArchiveMagic : Bytes := [0x50, 0x4b, 0x05, 0x06]

/-- `is_zip`. -/
def isZip (bytes : Bytes) : Bool :=
  4 ≤ bytes.length && (bytes.take 4 == zipLocalHeaderMagic || bytes.take 4 == zipEmptyArchiveMagic)

/-- An entry of an opened archive: `read n` is `take(n)` followed by `read_to_end`. -/
structure Entry where
  isDir : Bool
  read : ℕ → Except String Bytes

/-- `ZipArchive::new`: the entries as `by_index` gives them. -/
abbrev ZipArchive := Bytes → Except String (List (Except String Entry))

/-- Append a member, on a new line. -/
def addMember (combined contents : Bytes) : Bytes :=
  (if combined ≠ [] ∧ combined.getLast? ≠ some 10 then combined ++ [10] else combined) ++ contents

/-- The loop over the members. -/
def expandMembers (limit : UInt64) :
    List (Except String Entry) → Bytes → Except DecompressError Bytes
  | [], combined => .ok combined
  | .error e :: _, _ => .error (.readMember e)
  | .ok entry :: entries, combined =>
      if entry.isDir then expandMembers limit entries combined
      else
        let budget := limit.toNat - combined.length
        if budget = 0 then .error (.tooLarge limit)
        else
          -- the addition saturates
          match entry.read (min (budget + 1) (2 ^ 64 - 1)) with
          | .error e => .error (.readMember e)
          | .ok contents =>
              if budget < contents.length then .error (.tooLarge limit)
              else expandMembers limit entries (addMember combined contents)

/-- `decompress_if_zip`. -/
def decompressIfZip (zip : ZipArchive) (bytes : Bytes) (limit : UInt64) :
    Except DecompressError Bytes :=
  if isZip bytes then
    match zip bytes with
    | .error e => .error (.openArchive e)
    | .ok entries =>
        if entries.isEmpty then .error .emptyArchive else expandMembers limit entries []
  else .ok bytes

/-! ### Archives -/

/-- A member of an archive; the format gives its size in 64 bits. -/
structure Member where
  isDir : Bool
  contents : Bytes
  size_lt : contents.length < 2 ^ 64

/-- The entry gives the member's contents, as much of them as is asked for. -/
def Gives (member : Member) (entry : Except String Entry) : Prop :=
  ∃ e, entry = .ok e ∧ e.isDir = member.isDir ∧
    (member.isDir = false → ∀ n, e.read n = .ok (member.contents.take n))

/-- The archive opens, and every member can be read. -/
def Readable (zip : ZipArchive) (bytes : Bytes) (members : List Member) : Prop :=
  ∃ entries, zip bytes = .ok entries ∧ List.Forall₂ Gives members entries

/-- The contents of the members that are no directories. -/
def files (members : List Member) : List Bytes :=
  (members.filter fun m => !m.isDir).map Member.contents

/-- The files in order, a newline before each one that would not start on a line of its own. -/
def join (contents : List Bytes) : Bytes := contents.foldl addMember []

/-- What the expansion of the archive is to give. -/
def expected (limit : UInt64) (contents : List Bytes) : Except DecompressError Bytes :=
  if contents = [] then .error .emptyArchive
  else if (join contents).length ≤ limit.toNat then .ok (join contents)
  else .error (.tooLarge limit)

theorem length_addMember (combined contents : Bytes) :
    combined.length + contents.length ≤ (addMember combined contents).length ∧
      (addMember combined contents).length ≤ combined.length + contents.length + 1 := by
  rw [addMember]
  split <;> simp only [List.length_append, List.length_singleton] <;> omega

theorem length_le_foldl_addMember (contents : List Bytes) (combined : Bytes) :
    combined.length ≤ (contents.foldl addMember combined).length := by
  induction contents generalizing combined with
  | nil => exact Nat.le_refl _
  | cons c contents ih =>
      have hstep := (length_addMember combined c).1
      have hrest := ih (addMember combined c)
      rw [List.foldl_cons]
      omega

/-! ### The budget -/

/-- The loop on the contents of the files. -/
def expandFiles (limit : UInt64) : List Bytes → Bytes → Except DecompressError Bytes
  | [], combined => .ok combined
  | contents :: rest, combined =>
      if limit.toNat ≤ combined.length ∨ limit.toNat < combined.length + contents.length then
        .error (.tooLarge limit)
      else expandFiles limit rest (addMember combined contents)

/-- On a readable archive the loop depends on the contents of the files only. -/
theorem expandMembers_eq (limit : UInt64) {members : List Member}
    {entries : List (Except String Entry)} (h : List.Forall₂ Gives members entries)
    (combined : Bytes) :
    expandMembers limit entries combined = expandFiles limit (files members) combined := by
  induction h generalizing combined with
  | nil => rfl
  | @cons member entry members entries hgives _ ih =>
      obtain ⟨e, rfl, hdir, hread⟩ := hgives
      rw [expandMembers, hdir]
      cases hmember : member.isDir with
      | true =>
          have hfiles : files (member :: members) = files members := by
            rw [files, List.filter_cons, hmember]
            rfl
          rw [if_pos rfl, hfiles, ih]
      | false =>
          have hfiles : files (member :: members) = member.contents :: files members := by
            rw [files, List.filter_cons, hmember]
            rfl
          have hsize := member.size_lt
          have hlimit : limit.toNat < 2 ^ 64 := limit.toNat_lt
          rw [if_neg Bool.false_ne_true, hfiles, expandFiles]
          simp only [hread hmember]
          by_cases hfull : limit.toNat ≤ combined.length
          · rw [if_pos (by omega), if_pos (Or.inl hfull)]
          · rw [if_neg (by omega)]
            by_cases hlong : limit.toNat < combined.length + member.contents.length
            · rw [if_pos (Or.inr hlong), if_pos (by rw [List.length_take]; omega)]
            · have hall : member.contents.take
                  (min (limit.toNat - combined.length + 1) (2 ^ 64 - 1)) = member.contents :=
                List.take_of_length_le (by omega)
              rw [hall, if_neg (by omega), if_neg (by omega), ih]

/-- **The budget binds at the last file:** the loop ends with the join exactly when there the
output so far is below the limit and the file fits in what is left. -/
theorem expandFiles_append (limit : UInt64) (init : List Bytes) (last combined : Bytes) :
    expandFiles limit (init ++ [last]) combined =
      if (init.foldl addMember combined).length < limit.toNat ∧
          (init.foldl addMember combined).length + last.length ≤ limit.toNat then
        .ok (addMember (init.foldl addMember combined) last)
      else .error (.tooLarge limit) := by
  induction init generalizing combined with
  | nil =>
      rw [List.nil_append, List.foldl_nil, expandFiles, expandFiles]
      by_cases hfits : combined.length < limit.toNat ∧ combined.length + last.length ≤ limit.toNat
      · rw [if_neg (by omega), if_pos hfits]
      · rw [if_pos (by omega), if_neg hfits]
  | cons contents init ih =>
      rw [List.cons_append, expandFiles, List.foldl_cons]
      by_cases hover : limit.toNat ≤ combined.length ∨
          limit.toNat < combined.length + contents.length
      · -- the later files can only add to what is too long already
        have hstep := (length_addMember combined contents).1
        have hrest := length_le_foldl_addMember init (addMember combined contents)
        rw [if_pos hover, if_neg (by omega)]
      · rw [if_neg hover, ih]

/-! ### When the expansion is exact -/

/-- There are members, and all of them are directories. -/
def DirectoriesOnly (members : List Member) : Prop := members ≠ [] ∧ files members = []

/-- The files before the last one reach the limit, and the last one adds nothing to them. -/
def FullBeforeLast (limit : UInt64) (contents : List Bytes) : Prop :=
  ∃ init last, contents = init ++ [last] ∧ (join init).length = limit.toNat ∧
    (join contents).length = limit.toNat

/-- The last file fits exactly, but not the newline before it. -/
def NewlineOverflows (limit : UInt64) (contents : List Bytes) : Prop :=
  ∃ init last, contents = init ++ [last] ∧ (join init).length < limit.toNat ∧
    (join init).length + last.length = limit.toNat ∧
    (join contents).length = limit.toNat + 1

theorem fullBeforeLast_iff {limit : UInt64} {init : List Bytes} {last : Bytes} :
    FullBeforeLast limit (init ++ [last]) ↔
      (join init).length = limit.toNat ∧ (join (init ++ [last])).length = limit.toNat := by
  constructor
  · rintro ⟨init', last', hsplit, hinit, hall⟩
    obtain ⟨rfl, -⟩ := List.append_inj' hsplit rfl
    exact ⟨hinit, hall⟩
  · rintro ⟨hinit, hall⟩
    exact ⟨init, last, rfl, hinit, hall⟩

theorem newlineOverflows_iff {limit : UInt64} {init : List Bytes} {last : Bytes} :
    NewlineOverflows limit (init ++ [last]) ↔
      (join init).length < limit.toNat ∧ (join init).length + last.length = limit.toNat ∧
        (join (init ++ [last])).length = limit.toNat + 1 := by
  constructor
  · rintro ⟨init', last', hsplit, hinit, hfits, hall⟩
    obtain ⟨rfl, hlast⟩ := List.append_inj' hsplit rfl
    obtain rfl := List.singleton_inj.mp hlast
    exact ⟨hinit, hfits, hall⟩
  · rintro ⟨hinit, hfits, hall⟩
    exact ⟨init, last, rfl, hinit, hfits, hall⟩

/-- Where the loop and the join disagree. -/
theorem expandFiles_eq_expected_iff (limit : UInt64) {contents : List Bytes}
    (hne : contents ≠ []) :
    expandFiles limit contents [] = expected limit contents ↔
      ¬ FullBeforeLast limit contents ∧ ¬ NewlineOverflows limit contents := by
  have hsplit : contents = contents.dropLast ++ [contents.getLast hne] :=
    (List.dropLast_append_getLast hne).symm
  generalize contents.dropLast = init at hsplit
  generalize contents.getLast hne = last at hsplit
  subst hsplit
  have hjoin : join (init ++ [last]) = addMember (join init) last := by
    rw [join, List.foldl_append]
    rfl
  obtain ⟨hlow, hhigh⟩ := length_addMember (join init) last
  rw [fullBeforeLast_iff, newlineOverflows_iff, expandFiles_append, expected, if_neg hne, ← join,
    hjoin]
  by_cases hfits : (join init).length < limit.toNat ∧
      (join init).length + last.length ≤ limit.toNat
  · rw [if_pos hfits]
    by_cases hall : (addMember (join init) last).length ≤ limit.toNat
    · rw [if_pos hall]
      exact iff_of_true rfl ⟨by omega, by omega⟩
    · rw [if_neg hall]
      exact iff_of_false (fun h => by cases h) (by omega)
  · rw [if_neg hfits]
    by_cases hall : (addMember (join init) last).length ≤ limit.toNat
    · rw [if_pos hall]
      exact iff_of_false (fun h => by cases h) (by omega)
    · rw [if_neg hall]
      exact iff_of_true rfl ⟨by omega, by omega⟩

/-- What `decompress_if_zip` is to do with some bytes, which may be an archive of these members. -/
def ExpandsExactly (zip : ZipArchive) (bytes : Bytes) (limit : UInt64) (members : List Member) :
    Prop :=
  decompressIfZip zip bytes limit =
    if isZip bytes then expected limit (files members) else .ok bytes

/-- **Exactly when an archive is expanded exactly.** -/
theorem decompress_exact_iff (zip : ZipArchive) (bytes : Bytes) (limit : UInt64)
    (members : List Member) (hreadable : isZip bytes = true → Readable zip bytes members) :
    ExpandsExactly zip bytes limit members ↔
      (isZip bytes = true → ¬ DirectoriesOnly members ∧ ¬ FullBeforeLast limit (files members) ∧
        ¬ NewlineOverflows limit (files members)) := by
  rw [ExpandsExactly, decompressIfZip]
  cases hzip : isZip bytes with
  | false => exact iff_of_true rfl fun h => absurd h Bool.false_ne_true
  | true =>
      obtain ⟨entries, hopen, hgives⟩ := hreadable hzip
      have hempty : entries.isEmpty = true ↔ members = [] := by
        rw [List.isEmpty_iff, ← List.length_eq_zero_iff, ← hgives.length_eq,
          List.length_eq_zero_iff]
      simp only [hopen, if_true, forall_const, hempty]
      by_cases hmembers : members = []
      · have hnofiles : files members = [] := by rw [hmembers]; rfl
        rw [if_pos hmembers, expected, if_pos hnofiles, hnofiles]
        refine iff_of_true rfl ⟨fun h => h.1 hmembers, ?_, ?_⟩
        · rintro ⟨init, last, hsplit, -⟩
          simp at hsplit
        · rintro ⟨init, last, hsplit, -⟩
          simp at hsplit
      · rw [if_neg hmembers, expandMembers_eq limit hgives]
        by_cases hnofiles : files members = []
        · rw [hnofiles, expected, if_pos rfl]
          exact iff_of_false (fun h => by cases h) fun h => h.1 ⟨hmembers, hnofiles⟩
        · rw [expandFiles_eq_expected_iff limit hnofiles]
          exact (and_iff_right fun h => hnofiles h.2).symm

/-! ### Two archives -/

/-- An archive reader that knows one archive. -/
def opens (archive : Bytes) (members : List Member) : ZipArchive := fun bytes =>
  if bytes = archive then
    .ok (members.map fun m => .ok ⟨m.isDir, fun n => .ok (m.contents.take n)⟩)
  else .error "invalid Zip archive: Could not find EOCD"

theorem readable_opens (archive : Bytes) (members : List Member) :
    Readable (opens archive members) archive members := by
  refine ⟨_, if_pos rfl, ?_⟩
  rw [List.forall₂_map_right_iff, List.forall₂_same]
  exact fun m _ => ⟨_, rfl, rfl, fun _ _ => rfl⟩

/-- Two stored files, `a` and `b`, of one byte each. -/
def twoFilesZip : Bytes :=
  [80, 75, 3, 4, 20, 0, 0, 0, 0, 0, 0, 0, 33, 0, 67, 190, 183, 232, 1, 0, 0, 0, 1, 0, 0, 0, 1, 0,
    0, 0, 97, 97, 80, 75, 3, 4, 20, 0, 0, 0, 0, 0, 0, 0, 33, 0, 249, 239, 190, 113, 1, 0, 0, 0, 1,
    0, 0, 0, 1, 0, 0, 0, 98, 98, 80, 75, 1, 2, 20, 0, 20, 0, 0, 0, 0, 0, 0, 0, 33, 0, 67, 190,
    183, 232, 1, 0, 0, 0, 1, 0, 0, 0, 1, 0, 0, 0, 0, 0, 0, 0, 0, 0, 0, 0, 128, 1, 0, 0, 0, 0, 97,
    80, 75, 1, 2, 20, 0, 20, 0, 0, 0, 0, 0, 0, 0, 33, 0, 249, 239, 190, 113, 1, 0, 0, 0, 1, 0, 0,
    0, 1, 0, 0, 0, 0, 0, 0, 0, 0, 0, 0, 0, 128, 1, 32, 0, 0, 0, 98, 80, 75, 5, 6, 0, 0, 0, 0, 2,
    0, 2, 0, 94, 0, 0, 0, 64, 0, 0, 0, 0, 0]

def twoFiles : List Member := [⟨false, ascii "a", by decide⟩, ⟨false, ascii "b", by decide⟩]

/-- One directory, `d/`. -/
def directoryZip : Bytes :=
  [80, 75, 3, 4, 20, 0, 0, 0, 0, 0, 0, 0, 33, 0, 0, 0, 0, 0, 0, 0, 0, 0, 0, 0, 0, 0, 2, 0, 0, 0,
    100, 47, 80, 75, 1, 2, 20, 0, 20, 0, 0, 0, 0, 0, 0, 0, 33, 0, 0, 0, 0, 0, 0, 0, 0, 0, 0, 0, 0,
    0, 2, 0, 0, 0, 0, 0, 0, 0, 0, 0, 0, 0, 128, 1, 0, 0, 0, 0, 100, 47, 80, 75, 5, 6, 0, 0, 0, 0,
    1, 0, 1, 0, 48, 0, 0, 0, 32, 0, 0, 0, 0, 0]

def directory : List Member := [⟨true, [], by decide⟩]

/-- With a limit of three bytes the two files are joined. -/
theorem decompress_exact_of_two :
    decompressIfZip (opens twoFilesZip twoFiles) twoFilesZip 3 = .ok (ascii "a\nb") := by
  have hexact := (decompress_exact_iff (opens twoFilesZip twoFiles) twoFilesZip 3 twoFiles
    fun _ => readable_opens _ _).mpr fun _ => by
      have hsplit : files twoFiles = [ascii "a"] ++ [ascii "b"] := by decide
      rw [hsplit, fullBeforeLast_iff, newlineOverflows_iff, DirectoriesOnly, hsplit]
      decide
  rw [ExpandsExactly] at hexact
  rw [hexact]
  decide +kernel

/-- With a limit of two bytes the two files give three bytes, and the archive without a file gives
no error. -/
theorem newline_exceeds_limit :
    decompressIfZip (opens twoFilesZip twoFiles) twoFilesZip 2 = .ok (ascii "a\nb") ∧
      Readable (opens twoFilesZip twoFiles) twoFilesZip twoFiles ∧
      ¬ ExpandsExactly (opens twoFilesZip twoFiles) twoFilesZip 2 twoFiles ∧
      decompressIfZip (opens directoryZip directory) directoryZip 2 = .ok [] ∧
      Readable (opens directoryZip directory) directoryZip directory ∧
      ¬ ExpandsExactly (opens directoryZip directory) directoryZip 2 directory := by
  have htwo : decompressIfZip (opens twoFilesZip twoFiles) twoFilesZip 2 = .ok (ascii "a\nb") := by
    decide +kernel
  have hdirectory : decompressIfZip (opens directoryZip directory) directoryZip 2 = .ok [] := by
    decide +kernel
  refine ⟨htwo, readable_opens _ _, ?_, hdirectory, readable_opens _ _, ?_⟩
  · rw [ExpandsExactly, htwo]
    decide +kernel
  · rw [ExpandsExactly, hdirectory]
    decide +kernel

end SimplyIpSync.Jobs.Decompress
