import Chen.Library.Effect
import Chen.Observability.Audit

/-!
# Audit entries, written and read

An entry with plain fields reads back from its line. The canonical text of an entry that was read
tells what its fields are, and so does its hash, where the hash tells the texts apart.
-/

namespace Chen

open JsonValue (Loaded)

/-! ## Values -/

namespace JsonValue

variable {F : Type}

/-- A value that is no container, as `record` writes it. -/
def Plain : JsonValue F → Prop
  | .int _ => True
  | .float _ => True
  | .str _ => True
  | _ => False

/-- The value that is read where this one was written. -/
def reloaded : JsonValue F → JsonValue F
  | .str s => .str s.joinPairs
  | v => v

variable [JsonFloat F]

/-- A value is written as the one that is read for it. -/
theorem write_reloaded (v : JsonValue F) : v.reloaded.write = v.write := by
  cases v with
  | str s => exact PyStr.quote_joinPairs s
  | _ => rfl

omit [JsonFloat F] in
/-- The value that is read for one that was written. -/
theorem loaded_reloaded {v : JsonValue F} (h : v.Plain) : Loaded v.reloaded := by
  cases v with
  | int n => exact .int n
  | float x => exact .float x
  | str s => exact .str (PyStr.paired_joinPairs s)
  | _ => exact h.elim

end JsonValue

/-! ## Entries -/

namespace AuditEntry

variable {F : Type} {e e' : AuditEntry F}

/-- The fields that are hashed, in their order. -/
theorem hashedDict_eq (e : AuditEntry F) : e.hashedDict =
    [(.ofString "output_hash", e.outputHash), (.ofString "prev_hash", e.prevHash),
      (.ofString "prompt_hash", e.promptHash), (.ofString "run_id", e.runId),
      (.ofString "seq", e.seq), (.ofString "tenant_id", e.tenantId),
      (.ofString "timestamp", e.timestamp)] := rfl

/-- The arguments are found under their names. -/
theorem ofKeywords_asdict (e : AuditEntry F) : ofKeywords e.asdict = .ok e := (rfl)

/-- The entry that is read where this one was written. -/
def reloaded (e : AuditEntry F) : AuditEntry F where
  seq := e.seq.reloaded
  timestamp := e.timestamp.reloaded
  runId := e.runId.reloaded
  promptHash := e.promptHash.reloaded
  outputHash := e.outputHash.reloaded
  tenantId := e.tenantId.reloaded
  prevHash := e.prevHash.reloaded
  entryHash := e.entryHash.reloaded

/-- The values of an entry are read one by one. -/
theorem values_reloaded (e : AuditEntry F) : e.reloaded.values = e.values.map JsonValue.reloaded :=
  rfl

theorem asdict_reloaded (e : AuditEntry F) :
    e.reloaded.asdict = e.asdict.map fun kv => (kv.1, kv.2.reloaded) := rfl

theorem hashedDict_reloaded (e : AuditEntry F) :
    e.reloaded.hashedDict = e.hashedDict.map fun kv => (kv.1, kv.2.reloaded) := rfl

/-- The fields hold values as `json.loads` returns them. -/
def Loaded [JsonFloat F] (e : AuditEntry F) : Prop := ∀ v ∈ e.values, JsonValue.Loaded v

variable [JsonFloat F]

/-- Fields that are read and written again give the same text. -/
theorem dumps_map_reloaded (items : List (PyStr × JsonValue F)) :
    (JsonValue.dict (items.map fun kv => (kv.1, kv.2.reloaded))).dumps =
      (JsonValue.dict items).dumps := by
  simp only [JsonValue.dumps, JsonValue.write_dict, JsonValue.writeItems_eq_map, List.map_map,
    Function.comp_def, JsonValue.write_reloaded]

/-- An entry that is read has the line it was read from. -/
theorem toJsonl_reloaded (e : AuditEntry F) : e.reloaded.toJsonl = e.toJsonl := by
  rw [toJsonl, asdict_reloaded, dumps_map_reloaded, toJsonl]

/-- It has the same text to hash. -/
theorem canonical_reloaded (e : AuditEntry F) : e.reloaded.canonical = e.canonical := by
  rw [canonical, hashedDict_reloaded, dumps_map_reloaded, canonical]

omit [JsonFloat F] in
/-- The fields of a line are plain keys and values of the entry. -/
theorem mem_asdict {kv : PyStr × JsonValue F} (h : kv ∈ e.asdict) :
    kv.1.Paired ∧ kv.2 ∈ e.values := by
  obtain ⟨hkey, hvalue⟩ := List.of_mem_zip (JsonValue.mem_of_mem_ofPairs h)
  obtain ⟨name, -, hname⟩ := List.mem_map.mp hkey
  rw [← hname]
  exact ⟨PyStr.paired_ofString name, hvalue⟩

/-- The fields of an entry that was loaded can be written and loaded again. -/
theorem loaded_asdict (h : e.Loaded) : JsonValue.Loaded (.dict e.asdict) :=
  .dict (JsonValue.sorted_ofPairs _) (fun _ hkv => (mem_asdict hkv).1)
    fun _ hkv => h _ (mem_asdict hkv).2

/-- The entry that is read for one that was written. -/
theorem loaded_reloaded (hplain : ∀ v ∈ e.values, v.Plain) : e.reloaded.Loaded := by
  intro v hv
  rw [values_reloaded] at hv
  obtain ⟨w, hw, rfl⟩ := List.mem_map.mp hv
  exact JsonValue.loaded_reloaded (hplain w hw)

/-- The hashed fields of an entry that was loaded can be written and loaded again. -/
theorem loaded_hashedDict (h : e.Loaded) : JsonValue.Loaded (.dict e.hashedDict) := by
  cases loaded_asdict h with
  | dict hsorted hkeys hvalues =>
    refine .dict ?_ ?_ ?_
    · exact hsorted.sublist (List.filter_sublist.map _)
    · exact fun kv hkv => hkeys kv (List.mem_of_mem_filter hkv)
    · exact fun kv hkv => hvalues kv (List.mem_of_mem_filter hkv)

/-- The line of an entry has a brace at either end. -/
theorem trimmed_toJsonl (e : AuditEntry F) : TextFile.Trimmed e.toJsonl := by
  constructor
  · exact ⟨'\x7b', rfl, by decide⟩
  · refine ⟨'\x7d', ?_, by decide⟩
    rw [toJsonl, JsonValue.dumps, JsonValue.write_dict, List.getLast?_concat]
    rfl

/-- A line that was written for an entry is read as that entry. -/
theorem fromJsonl_toJsonl (h : e.Loaded) : fromJsonl e.toJsonl = .ok e := by
  rw [fromJsonl, toJsonl, Effect.except_bind_eq_ok]
  exact ⟨_, JsonValue.loads_dumps (loaded_asdict h), ofKeywords_asdict e⟩

/-- An entry of plain values is read up to surrogate pairs. -/
theorem fromJsonl_toJsonl_of_plain (h : ∀ v ∈ e.values, v.Plain) :
    fromJsonl e.toJsonl = .ok e.reloaded := by
  rw [← toJsonl_reloaded]
  exact fromJsonl_toJsonl (loaded_reloaded h)

omit [JsonFloat F] in
/-- A value that is found stands in an item. -/
theorem mem_of_lookup {items : List (PyStr × JsonValue F)} {key : PyStr} {v : JsonValue F}
    (h : items.lookup key = some v) : ∃ kv ∈ items, kv.2 = v := by
  obtain ⟨l, r, hitems, -⟩ := List.lookup_eq_some_iff.mp h
  exact ⟨(key, v), by rw [hitems]; simp, rfl⟩

omit [JsonFloat F] in
/-- An argument that is found stands in an item. -/
theorem mem_of_argument {items : List (PyStr × JsonValue F)} {name : String} {v : JsonValue F}
    (h : argument items name = .ok v) : ∃ kv ∈ items, kv.2 = v := by
  rw [argument] at h
  split at h
  · rename_i hlookup
    cases h
    exact mem_of_lookup hlookup
  · cases h

omit [JsonFloat F] in
/-- What the constructor is given, and the default, is all it stores. -/
theorem mem_of_ofKeywords {items : List (PyStr × JsonValue F)} (h : ofKeywords items = .ok e)
    {v : JsonValue F} (hv : v ∈ e.values) : v = .str [] ∨ ∃ kv ∈ items, kv.2 = v := by
  rw [ofKeywords] at h
  split at h
  · cases h
  · simp only [Effect.except_bind_eq_ok] at h
    obtain ⟨seq, hseq, timestamp, htime, runId, hrun, promptHash, hprompt, outputHash,
      houtput, tenantId, htenant, prevHash, hprev, hentry⟩ := h
    cases hentry
    simp only [values, List.mem_cons, List.not_mem_nil, or_false] at hv
    rcases hv with rfl | rfl | rfl | rfl | rfl | rfl | rfl | rfl
    · exact .inr (mem_of_argument hseq)
    · exact .inr (mem_of_argument htime)
    · exact .inr (mem_of_argument hrun)
    · exact .inr (mem_of_argument hprompt)
    · exact .inr (mem_of_argument houtput)
    · exact .inr (mem_of_argument htenant)
    · exact .inr (mem_of_argument hprev)
    · cases hlookup : items.lookup (PyStr.ofString "entry_hash") with
      | none => exact .inl rfl
      | some value => exact .inr (mem_of_lookup hlookup)

/-- An entry that was parsed has values as `json.loads` returns them. -/
theorem loaded_of_fromJsonl {line : List Char} (h : fromJsonl line = .ok e) : e.Loaded := by
  rw [fromJsonl, Effect.except_bind_eq_ok] at h
  obtain ⟨value, hvalue, h⟩ := h
  have hloaded := JsonValue.loaded_of_loads hvalue
  split at h
  · intro v hv
    cases hloaded with
    | dict hsorted hkeys hvalues =>
      rcases mem_of_ofKeywords h hv with rfl | ⟨kv, hkv, rfl⟩
      · exact .str .nil
      · exact hvalues kv hkv
  · cases h

/-- The canonical text tells all the fields but the hash. -/
theorem eq_of_canonical_eq (h : e.Loaded) (h' : e'.Loaded) (hhash : e.entryHash = e'.entryHash)
    (htext : e.canonical = e'.canonical) : e = e' := by
  have hdict := JsonValue.dumps_injective (loaded_hashedDict h) (loaded_hashedDict h') htext
  rw [hashedDict_eq, hashedDict_eq] at hdict
  simp only [JsonValue.dict.injEq, List.cons.injEq, Prod.mk.injEq, true_and, and_true] at hdict
  obtain ⟨houtput, hprev, hprompt, hrun, hseq, htenant, htime⟩ := hdict
  cases e
  cases e'
  simp_all

end AuditEntry

end Chen
