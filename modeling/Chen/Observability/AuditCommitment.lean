import Chen.Observability.AuditRecords

/-!
# The last hash stands for the whole log

Two logs that `verify` accepts and that end in one hash hold the same entries, provided that SHA-256
tells the texts apart that were hashed for them.
-/

namespace Chen.AuditLog

open AuditEntry

section

variable {F : Type} [JsonFloat F] [Hashlib]

variable (F) in
/-- The canonical texts that `verify` hashes. -/
def hashedTexts (file : Option (List Char)) : List String :=
  match entries (F := F) file with
  | .ok es => es.map fun e => String.ofList e.canonical
  | .error _ => []

/-- The hash of an entry is the hash of no chain's root. -/
theorem computeHash_ne_nil (hlength : ∀ data, (Hashlib.sha256 data).length = 32)
    (e : AuditEntry F) : e.computeHash ≠ [] := by
  intro h
  have hlen := congrArg List.length h
  rw [computeHash, sha256Hex, PyStr.ofString, List.length_map, String.length_toList,
    Str.length_hex, hlength] at hlen
  cases hlen

/-- Under an injective SHA-256, two verified logs that end in one hash hold the same entries. -/
theorem verified_entries_eq (hlength : ∀ data, (Hashlib.sha256 data).length = 32)
    {file file' : Option (List Char)}
    (hinj : ∀ text ∈ hashedTexts F file, ∀ text' ∈ hashedTexts F file',
      Hashlib.sha256 (Str.utf8 text) = Hashlib.sha256 (Str.utf8 text') → text = text')
    (hverify : verify F file = .ok true) (hverify' : verify F file' = .ok true)
    {last last' : AuditEntry F} (hlast : lastEntry file = some last)
    (hlast' : lastEntry file' = some last') (hhash : last.entryHash = last'.entryHash) :
    ∃ es : List (AuditEntry F), entries file = .ok es ∧ entries file' = .ok es := by
  obtain ⟨es, hes, hchained⟩ := verify_eq_true.mp hverify
  obtain ⟨es', hes', hchained'⟩ := verify_eq_true.mp hverify'
  obtain ⟨hlinked, hhashes⟩ := hchained.linked
  obtain ⟨hlinked', hhashes'⟩ := hchained'.linked
  rw [lastEntry_of_entries hes] at hlast
  rw [lastEntry_of_entries hes'] at hlast'
  -- Both chains end in the hash of their last entry.
  have htip : HashChain.tip (fun e : AuditEntry F => (.str e.computeHash : JsonValue F))
      (.str []) es = HashChain.tip (fun e => .str e.computeHash) (.str []) es' := by
    rw [HashChain.tip, HashChain.tip, hlast, hlast']
    simpa [hhashes last (List.mem_of_getLast? hlast),
      hhashes' last' (List.mem_of_getLast? hlast')] using hhash
  have heq : es = es' := by
    apply HashChain.eq_of_tip_eq _ _ _ hlinked hlinked' htip
    · intro e he e' he' hboth
      have hdigest : sha256Hex (String.ofList e.canonical) =
          sha256Hex (String.ofList e'.canonical) := JsonValue.str.inj hboth
      have htext := hinj (String.ofList e.canonical)
        (by rw [hashedTexts, hes]; exact List.mem_map_of_mem he) (String.ofList e'.canonical)
        (by rw [hashedTexts, hes']; exact List.mem_map_of_mem he')
        (Str.hex_injective (PyStr.ofString_injective hdigest))
      -- Equal digests are of equal texts, and a text determines its entry up to the hash.
      apply eq_of_canonical_eq (loaded_of_entries hes e he) (loaded_of_entries hes' e' he')
      · rw [hhashes e he, hhashes' e' he']
        exact hboth
      · exact String.ofList_injective htext
    · intro e he hroot
      exact computeHash_ne_nil hlength e (JsonValue.str.inj hroot)
    · intro e he hroot
      exact computeHash_ne_nil hlength e (JsonValue.str.inj hroot)
  exact ⟨es, hes, heq ▸ hes'⟩

end

section Examples

local instance committedFloats : JsonFloat ℕ := .tenths

local instance committedDigests : Hashlib := .checksum

/-- The first of two entries of a log. -/
def firstEntry : AuditEntry ℕ :=
  entryOf 0 [] { runId := .ofString "a", prompt := "p1", output := "o1", time := 5 }

/-- The second one, which is linked to the first. -/
def secondEntry : AuditEntry ℕ :=
  entryOf 1 firstEntry.computeHash
    { runId := .ofString "b", prompt := "p2", output := "o2", time := 17 }

/-- Both entries are as `record` makes them. -/
theorem recorded_twoEntries : ∀ e ∈ [firstEntry, secondEntry], Recorded e := by
  simp only [List.forall_mem_cons]
  exact ⟨⟨0, [], _, .nil, rfl⟩, ⟨1, _, _, paired_computeHash _, rfl⟩, List.forall_mem_nil _⟩

/-- A log of two entries, and the same log with an empty line behind it. -/
theorem verified_entries_eq_two :
    fileOf [firstEntry, secondEntry] ≠ fileOf [firstEntry, secondEntry] ++ ['\n'] ∧
      ∃ es : List (AuditEntry ℕ), entries (some (fileOf [firstEntry, secondEntry])) = .ok es ∧
        entries (some (fileOf [firstEntry, secondEntry] ++ ['\n'])) = .ok es := by
  refine ⟨by simp, ?_⟩
  have hentries : entries (some (fileOf [firstEntry, secondEntry])) =
      .ok ([firstEntry, secondEntry].map AuditEntry.reloaded) :=
    entries_fileOf recorded_twoEntries rfl
  have hsound : Sound ([] ++ [firstEntry] ++ [secondEntry]) :=
    (sound_append_singleton secondEntry).mpr
      ⟨(sound_append_singleton firstEntry).mpr ⟨sound_nil, rfl, rfl⟩, rfl, rfl⟩
  have hverify : verify ℕ (some (fileOf [firstEntry, secondEntry])) = .ok true :=
    (verify_fileOf_iff recorded_twoEntries rfl).mpr hsound
  -- the empty line is skipped
  have hlines : lines (some (fileOf [firstEntry, secondEntry] ++ ['\n'])) =
      lines (some (fileOf [firstEntry, secondEntry])) := by
    have hline := (recorded_twoEntries firstEntry (by simp)).line.1
    have hline' := (recorded_twoEntries secondEntry (by simp)).line.1
    have htext : fileOf [firstEntry, secondEntry] =
        firstEntry.toJsonl ++ '\n' :: (secondEntry.toJsonl ++ '\n' :: []) := by
      simp [fileOf, TextFile.ofLines]
    have htext' : fileOf [firstEntry, secondEntry] ++ ['\n'] =
        firstEntry.toJsonl ++ '\n' :: (secondEntry.toJsonl ++ '\n' :: ['\n']) := by
      rw [htext]
      simp
    rw [lines, lines, Option.getD_some, Option.getD_some, htext', htext, TextFile.entryLines,
      TextFile.entryLines, TextFile.lines_line hline, TextFile.lines_line hline,
      TextFile.lines_line hline', TextFile.lines_line hline']
    simp [TextFile.lines, TextFile.strip, List.filter_cons]
  have hentries' : entries (some (fileOf [firstEntry, secondEntry] ++ ['\n'])) =
      .ok ([firstEntry, secondEntry].map AuditEntry.reloaded) := by
    rw [entries, hlines]
    exact hentries
  -- the digest tells the two texts apart
  have hdigests : Hashlib.sha256 (Str.utf8 (String.ofList firstEntry.reloaded.canonical)) ≠
      Hashlib.sha256 (Str.utf8 (String.ofList secondEntry.reloaded.canonical)) := by
    simp only [Str.utf8_ofList, firstEntry, secondEntry, entryOf, computeHash, sha256Hex_eq]
    decide +kernel
  apply verified_entries_eq (fun _ => List.length_replicate) _ hverify _
    (lastEntry_of_entries hentries) (lastEntry_of_entries hentries') rfl
  · rw [hashedTexts, hentries, hashedTexts, hentries']
    simp only [List.map_cons, List.map_nil, List.forall_mem_cons]
    exact ⟨⟨fun _ => trivial, fun h => absurd h hdigests, List.forall_mem_nil _⟩,
      ⟨fun h => absurd h.symm hdigests, fun _ => trivial, List.forall_mem_nil _⟩,
      List.forall_mem_nil _⟩
  · rw [verify, hlines]
    exact hverify

end Examples

end Chen.AuditLog
