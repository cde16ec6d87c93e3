import FormulaSheet.Proofs.Record.Codec
import FormulaSheet.Store.Folder
import FormulaSheet.Store.Memory

/-!
# The two stores agree

A store in memory and a store in a folder that see the same calls reject the same ids and load the
same documents, up to the normal form that records have in files (`StoreCall.Agree`). In the folder
the files of two documents and the drafts of both have different names, so that a document is only
changed by its own calls and no draft is left.
-/

namespace FormulaSheet

/-- A call of a store. -/
inductive StoreCall where
  | replace (id : String) (r : Record)
  | load (id : String)

/-- What a call answers. -/
inductive StoreAnswer where
  | replaced (result : Except SheetError Unit)
  | loaded (result : Except SheetError (Option Record))

namespace MemoryStore

/-- A call on the store: its answer, and the store after it. -/
def call (s : MemoryStore) : StoreCall → StoreAnswer × MemoryStore
  | .replace id r =>
    match s.replace id r with
    | .ok s' => (.replaced (.ok ()), s')
    | .error e => (.replaced (.error e), s)
  | .load id => (.loaded (s.load id), s)

/-- The store after some calls. -/
def after (s : MemoryStore) (calls : List StoreCall) : MemoryStore :=
  calls.foldl (fun s c => (s.call c).2) s

end MemoryStore

namespace Folder

/-- A call on the folder: its answer, and the folder after it. -/
def call (f : Folder) : StoreCall → StoreAnswer × Folder
  | .replace id r => let (result, f') := f.replace id r; (.replaced result, f')
  | .load id => (.loaded (f.load id), f)

/-- The folder after some calls. -/
def after (f : Folder) (calls : List StoreCall) : Folder := calls.foldl (fun f c => (f.call c).2) f

end Folder

/-! ### Names of files -/

namespace Folder

theorem fileName_injective {id id' : String} (h : fileName id = fileName id') : id = id' := by
  have hchars := congrArg String.toList h
  simp only [fileName, String.toList_append] at hchars
  exact String.toList_inj.mp (List.append_cancel_right hchars)

/-- A draft has a suffix that no file of a document has. -/
theorem draftName_ne_fileName (id id' : String) : draftName id ≠ fileName id' := by
  intro h
  have hlast := congrArg (fun name => name.toList.getLast?) h
  simp [draftName, fileName] at hlast

end Folder

/-! ### One replacement -/

/-- A folder of documents: its entries are files of documents. -/
structure Folder.Tidy (f : Folder) : Prop where
  names : ∀ name ∈ Fields.keys f.entries, ∃ id, name = Folder.fileName id
  files : ∀ name, Fields.get? f.entries name ≠ some .folder

namespace Folder

variable {f : Folder}

theorem Tidy.draft (hf : f.Tidy) (id : String) : draftName id ∉ Fields.keys f.entries := by
  intro hmem
  obtain ⟨id', hname⟩ := hf.names _ hmem
  exact draftName_ne_fileName id id' hname

/-- A record is stored by one change, in which the draft comes and goes. -/
theorem Tidy.replace (hf : f.Tidy) {id : String} (hid : isDocumentId id = true) (r : Record) :
    f.replace id r = (.ok (), ⟨Fields.insert f.entries (fileName id) (.file r.toJson.pretty)⟩) := by
  have hdraft := hf.draft id
  have hfree : Fields.get? f.entries (draftName id) = none := Fields.get?_eq_none_iff.mpr hdraft
  have hwrite : f.write? (draftName id) r.toJson.pretty =
      some ⟨Fields.insert f.entries (draftName id) (.file r.toJson.pretty)⟩ := by
    rw [write?, hfree]
  have hread : (⟨Fields.insert f.entries (draftName id) (.file r.toJson.pretty)⟩ : Folder).read?
      (draftName id) = some r.toJson.pretty := by
    rw [read?, Fields.get?_insert, if_pos rfl]
  have htarget :
      Fields.get? (Fields.insert f.entries (draftName id) (.file r.toJson.pretty)) (fileName id) ≠
      some .folder := by
    rw [Fields.get?_insert, if_neg fun h => draftName_ne_fileName id id h.symm]
    exact hf.files (fileName id)
  have hrename :
      (⟨Fields.insert f.entries (draftName id) (.file r.toJson.pretty)⟩ : Folder).rename?
          (draftName id) (fileName id) =
        some ⟨Fields.insert f.entries (fileName id) (.file r.toJson.pretty)⟩ := by
    rw [rename?, hread]
    split
    · rename_i heq
      cases heq
    · rename_i hfolder _
      exact absurd hfolder htarget
    · rename_i heq _
      rw [← Option.some.inj heq, Fields.erase_insert, Fields.erase_of_not_mem hdraft]
  rw [Folder.replace, hid, hwrite]
  dsimp only
  rw [hrename]
  rfl

theorem Tidy.insert (hf : f.Tidy) (id text : String) :
    (⟨Fields.insert f.entries (fileName id) (.file text)⟩ : Folder).Tidy := by
  constructor
  · intro name hname
    rw [Fields.keys_insert] at hname
    split at hname
    · exact hf.names name hname
    · rcases List.mem_append.mp hname with hname | hname
      · exact hf.names name hname
      · exact ⟨id, List.mem_singleton.mp hname⟩
  · intro name
    rw [Fields.get?_insert]
    split
    · nofun
    · exact hf.files name

end Folder

namespace StoreCall

/-- The record that a call stores under an id. -/
def stored? (id : String) : StoreCall → Option Record
  | replace id' r => if id' = id ∧ isDocumentId id = true then some r else none
  | load _ => none

/-- The record of the last successful replacement under an id. -/
def lastStored? (calls : List StoreCall) (id : String) : Option Record :=
  calls.reverse.findSome? (stored? id)

/-- What the stores have in common after some calls. -/
structure Agree (calls : List StoreCall) (s : MemoryStore) (f : Folder) : Prop where
  /-- Every call with an id that is none of a document is rejected, and nothing changes. -/
  rejected : ∀ id, isDocumentId id = false →
    s.call (.load id) = (.loaded (.error (.invalidDocumentId id)), s) ∧
    f.call (.load id) = (.loaded (.error (.invalidDocumentId id)), f) ∧
    ∀ r, s.call (.replace id r) = (.replaced (.error (.invalidDocumentId id)), s) ∧
      f.call (.replace id r) = (.replaced (.error (.invalidDocumentId id)), f)
  /-- With every other id a record can be stored. -/
  accepted : ∀ id, isDocumentId id = true → ∀ r,
    (s.call (.replace id r)).1 = .replaced (.ok ()) ∧
    (f.call (.replace id r)).1 = .replaced (.ok ())
  /-- Where nothing was stored, both load nothing. -/
  unstored : ∀ id, isDocumentId id = true → lastStored? calls id = none →
    s.load id = .ok none ∧ f.load id = .ok none
  /-- The record that was stored last is loaded from memory, and from the folder as it is taken from
  its tree, given that the tree is read back from the text that is written. -/
  stored : ∀ id r, lastStored? calls id = some r →
    s.load id = .ok (some r) ∧
    ∃ r', Record.ofJson? r.toJson = some r' ∧ (r.toJson.ReadsBack → f.load id = .ok (some r'))
  /-- Storing a record does not change what is loaded under another id. -/
  others : ∀ id r id', id' ≠ id →
    (s.call (.replace id r)).2.load id' = s.load id' ∧
    (f.call (.replace id r)).2.load id' = f.load id'
  /-- There is no draft in the folder, and none after a record is stored. -/
  drafts : ∀ id, Folder.draftName id ∉ Fields.keys f.entries ∧
    ∀ id' r, Folder.draftName id ∉ Fields.keys (f.call (.replace id' r)).2.entries

/-! ### All calls -/

variable {calls : List StoreCall} {s : MemoryStore} {f : Folder} {id : String} {c : StoreCall}

theorem lastStored?_append (calls : List StoreCall) (c : StoreCall) (id : String) :
    lastStored? (calls ++ [c]) id = (c.stored? id).or (lastStored? calls id) := by
  rw [lastStored?, List.reverse_append]
  cases h : c.stored? id <;> simp [h, lastStored?]

theorem isDocumentId_of_stored {r : Record} (h : lastStored? calls id = some r) :
    isDocumentId id = true := by
  obtain ⟨c, -, hc⟩ := List.exists_of_findSome?_eq_some h
  cases c with
  | load _ => cases hc
  | replace id' r' =>
    by_cases hid : id' = id ∧ isDocumentId id = true
    · exact hid.2
    · rw [stored?, if_neg hid] at hc
      cases hc

/-- Both stores hold, under each id, what was stored last. -/
structure Held (calls : List StoreCall) (s : MemoryStore) (f : Folder) : Prop where
  records : ∀ id, Fields.get? s.records id = lastStored? calls id
  files : ∀ id, Fields.get? f.entries (Folder.fileName id) =
    (lastStored? calls id).map fun r => .file r.toJson.pretty
  tidy : f.Tidy

theorem held_nil : Held [] .empty .empty where
  records _ := rfl
  files _ := rfl
  tidy := ⟨nofun, nofun⟩

theorem replace_of_invalid (hid : isDocumentId id = false) (r : Record) :
    s.call (.replace id r) = (.replaced (.error (.invalidDocumentId id)), s) ∧
      f.call (.replace id r) = (.replaced (.error (.invalidDocumentId id)), f) := by
  simp [MemoryStore.call, MemoryStore.replace, Folder.call, Folder.replace, hid]

theorem replace_memory (hid : isDocumentId id = true) (r : Record) :
    s.call (.replace id r) = (.replaced (.ok ()), ⟨Fields.insert s.records id r⟩) := by
  simp [MemoryStore.call, MemoryStore.replace, hid]

theorem replace_folder (hf : f.Tidy) (hid : isDocumentId id = true) (r : Record) :
    f.call (.replace id r) =
      (.replaced (.ok ()),
        ⟨Fields.insert f.entries (Folder.fileName id) (.file r.toJson.pretty)⟩) := by
  rw [Folder.call, hf.replace hid]

/-- A call keeps what the stores hold in step. -/
theorem Held.call (h : Held calls s f) (c : StoreCall) :
    Held (calls ++ [c]) (s.call c).2 (f.call c).2 := by
  have hsame : (∀ id, c.stored? id = none) → Held (calls ++ [c]) s f := by
    intro hnone
    constructor
    · intro id
      rw [lastStored?_append, hnone, Option.none_or, h.records]
    · intro id
      rw [lastStored?_append, hnone, Option.none_or, h.files]
    · exact h.tidy
  cases c with
  | load id => exact hsame fun _ => rfl
  | replace id r =>
    cases hid : isDocumentId id with
    | false =>
      have hreplace := replace_of_invalid (s := s) (f := f) hid r
      rw [hreplace.1, hreplace.2]
      apply hsame
      rintro id'
      apply if_neg
      rintro ⟨rfl, hid'⟩
      rw [hid] at hid'
      cases hid'
    | true =>
      rw [replace_memory hid, replace_folder h.tidy hid]
      have hlast : ∀ id', lastStored? (calls ++ [.replace id r]) id' =
          if id' = id then some r else lastStored? calls id' := by
        intro id'
        rw [lastStored?_append]
        by_cases hsame : id' = id
        · subst hsame
          rw [if_pos rfl, stored?, if_pos ⟨rfl, hid⟩, Option.some_or]
        · rw [if_neg hsame, stored?, if_neg fun hboth => hsame hboth.1.symm, Option.none_or]
      constructor
      · intro id'
        rw [Fields.get?_insert, hlast, h.records]
      · intro id'
        rw [Fields.get?_insert, hlast, h.files]
        by_cases hsame : id' = id
        · subst hsame
          rw [if_pos rfl, if_pos rfl, Option.map_some]
        · rw [if_neg hsame, if_neg fun hname => hsame (Folder.fileName_injective hname)]
      · exact h.tidy.insert id r.toJson.pretty

theorem held_after (calls : List StoreCall) :
    Held calls (MemoryStore.empty.after calls) (Folder.empty.after calls) := by
  -- the last call comes after all others
  induction calls using List.reverseRecOn with
  | nil => exact held_nil
  | append_singleton calls c ih =>
    have hmemory :
        MemoryStore.empty.after (calls ++ [c]) = ((MemoryStore.empty.after calls).call c).2 :=
      List.foldl_concat ..
    have hfolder : Folder.empty.after (calls ++ [c]) = ((Folder.empty.after calls).call c).2 :=
      List.foldl_concat ..
    rw [hmemory, hfolder]
    exact ih.call c

/-! ### Loading -/

theorem Held.load_memory (h : Held calls s f) (hid : isDocumentId id = true) :
    s.load id = .ok (lastStored? calls id) := by
  rw [MemoryStore.load, if_pos hid, h.records]

theorem Held.load_none (h : Held calls s f) (hid : isDocumentId id = true)
    (hnone : lastStored? calls id = none) : f.load id = .ok none := by
  have hfile : Fields.get? f.entries (Folder.fileName id) = none := by
    rw [h.files, hnone, Option.map_none]
  simp [Folder.load, hid, hfile]

theorem Held.load_some (h : Held calls s f) {r : Record} (hsome : lastStored? calls id = some r)
    (hreads : r.toJson.ReadsBack) : f.load id = .ok (some r.normal) := by
  have hfile : Fields.get? f.entries (Folder.fileName id) = some (.file r.toJson.pretty) := by
    rw [h.files, hsome, Option.map_some]
  simp [Folder.load, isDocumentId_of_stored hsome, hfile, Record.parse_pretty hreads]

theorem load_of_invalid (hid : isDocumentId id = false) :
    s.load id = .error (.invalidDocumentId id) ∧ f.load id = .error (.invalidDocumentId id) := by
  simp [MemoryStore.load, Folder.load, hid]

/-- What is loaded under an id does not depend on what is stored under others. -/
theorem Held.load_other (h : Held calls s f) (r : Record) {id' : String} (hne : id' ≠ id) :
    (s.call (.replace id r)).2.load id' = s.load id' ∧
      (f.call (.replace id r)).2.load id' = f.load id' := by
  cases hid : isDocumentId id with
  | false =>
    have hreplace := replace_of_invalid (s := s) (f := f) hid r
    rw [hreplace.1, hreplace.2]
    exact ⟨rfl, rfl⟩
  | true =>
    rw [replace_memory hid, replace_folder h.tidy hid]
    have hrecord := Fields.get?_insert s.records id id' r
    have hfile := Fields.get?_insert f.entries (Folder.fileName id) (Folder.fileName id')
      (.file r.toJson.pretty)
    rw [if_neg hne] at hrecord
    rw [if_neg fun hname => hne (Folder.fileName_injective hname)] at hfile
    simp only [MemoryStore.load, Folder.load, hrecord, hfile]
    trivial

/-- **The two stores agree after all calls.** -/
theorem agree_after (calls : List StoreCall) :
    Agree calls (MemoryStore.empty.after calls) (Folder.empty.after calls) := by
  have h := held_after calls
  constructor
  case rejected =>
    intro id hid
    have hload :=
      load_of_invalid (s := MemoryStore.empty.after calls) (f := Folder.empty.after calls) hid
    refine ⟨?_, ?_, replace_of_invalid hid⟩
    · rw [MemoryStore.call, hload.1]
    · rw [Folder.call, hload.2]
  case accepted =>
    intro id hid r
    rw [replace_memory hid, replace_folder h.tidy hid]
    exact ⟨rfl, rfl⟩
  case unstored =>
    intro id hid hnone
    exact ⟨hnone ▸ h.load_memory hid, h.load_none hid hnone⟩
  case stored =>
    intro id r hsome
    refine ⟨hsome ▸ h.load_memory (isDocumentId_of_stored hsome), r.normal, r.take_toJson, ?_⟩
    exact h.load_some hsome
  case others =>
    intro id r id' hne
    exact h.load_other r hne
  case drafts =>
    intro id
    refine ⟨h.tidy.draft id, ?_⟩
    intro id' r
    exact (h.call (.replace id' r)).tidy.draft id

/-- A function in a list, which has no JSON there. -/
def handleRecord : Record :=
  ⟨[⟨"a", "x", "[Math.max]", .array [.callable ⟨"Math", "max"⟩], none, [], [], none⟩]⟩

/-- The handle as it is taken from its tree. -/
def handleRecord' : Record := ⟨[⟨"a", "x", "[Math.max]", .array [.null], none, [], [], none⟩]⟩

theorem ofJson_handle : Record.ofJson? handleRecord.toJson = some handleRecord' := by rfl

theorem reread_handle :
    Json.reread Json.nestingLimit handleRecord.toJson = some handleRecord.toJson := by rfl

/-- A record is stored in place of another, after a name with a dot is rejected. -/
def handleCalls : List StoreCall :=
  [.replace "a" sampleRecord, .replace "a.json" handleRecord, .replace "b" sampleRecord,
    .replace "a" handleRecord]

theorem lastStored_handle : lastStored? handleCalls "a" = some handleRecord := by rfl

/-- The handle is loaded from memory as it was, and from the folder as nothing in a list. -/
theorem agree_after_handle :
    (MemoryStore.empty.after handleCalls).load "a" = .ok (some handleRecord) ∧
    (Folder.empty.after handleCalls).load "a" = .ok (some handleRecord') ∧
    (MemoryStore.empty.after handleCalls).load "c" = .ok none ∧
    (Folder.empty.after handleCalls).load "c" = .ok none ∧
    (Folder.empty.after handleCalls).call (.load "a.json") =
      (.loaded (.error (.invalidDocumentId "a.json")), Folder.empty.after handleCalls) := by
  have h := agree_after handleCalls
  obtain ⟨hmemory, r', htaken, hfolder⟩ := h.stored "a" handleRecord lastStored_handle
  have hreads : handleRecord.toJson.ReadsBack :=
    (Json.readsBack_iff handleRecord.inRange_toJson).mpr reread_handle
  have hsame : r' = handleRecord' := Option.some.inj (htaken.symm.trans ofJson_handle)
  subst hsame
  have hnone := h.unstored "c" (by decide +kernel) (by rfl)
  have hrejected := h.rejected "a.json" (by decide +kernel)
  exact ⟨hmemory, hfolder hreads, hnone.1, hnone.2, hrejected.2.1⟩

end StoreCall

end FormulaSheet
