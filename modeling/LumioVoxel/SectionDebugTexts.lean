import LumioVoxel.DebugSpelling
import LumioVoxel.DirtyFrontier
import LumioVoxel.SectionDirectory

/-!
# What the debug texts of sections spell

The debug text of a directory spells, for each section, its presence and its pages, and leaves
the storage out; that of a dirty frontier spells the frontier.
-/

namespace LumioVoxel

open DebugText

/-! ## 1. Parts -/

/-- A constant is delimited, like every single value. -/
private theorem apart_self (text : Text) : Apart text text :=
  fun _ _ _ _ heq => ⟨rfl, List.append_cancel_left heq⟩

private theorem ends_nil : Ends [] := fun _ h => nomatch h

/-- A number does not begin with a bracket. -/
private theorem head_nat (n : Nat) (rest : Text) {c : Char} (hc : c.isDigit = false) :
    (nat n ++ rest).head? ≠ some c := by
  intro h
  rw [nat, List.head?_append_of_ne_nil _ (DecimalText.canonical_digits n).1] at h
  have hdigit := DecimalText.isDigit_of_mem_digits (List.mem_of_mem_head? h)
  rw [hc] at hdigit
  cases hdigit

theorem selfDelimiting_debugBytes : SelfDelimiting (fun _ : Bytes => True) DebugText.bytes := by
  have hbyte : Delimited (fun _ : UInt8 => True) Ends fun b => nat b.toNat :=
    delimited_nat.comap (fun _ _ => trivial) fun _ _ _ _ h => UInt8.toNat_inj.mp h
  have hlist := selfDelimiting_list hbyte fun b rest _ => head_nat b.toNat rest (by decide)
  exact fun bs bs' rest rest' _ _ => hlist (fun _ _ => trivial) fun _ _ => trivial

/-- The text of a section's id in a map. -/
def SectionId.debug (id : SectionId) : Text :=
  record "SectionId" [("x", int id.x), ("y", nat id.y), ("z", int id.z)]

theorem selfDelimiting_sectionId : SelfDelimiting (fun _ : SectionId => True) SectionId.debug := by
  apply selfDelimiting_record "SectionId"
    [("x", fun id : SectionId => int id.x), ("y", fun id => nat id.y), ("z", fun id => int id.z)]
  · intro id id' _ _
    simp only [List.forall_mem_cons]
    exact ⟨apart_of_delimited delimited_int trivial trivial,
      apart_of_delimited delimited_nat trivial trivial,
      apart_of_delimited delimited_int trivial trivial,
      fun _ h => absurd h List.not_mem_nil⟩
  · intro id id' _ _ h
    simp only [List.forall_mem_cons] at h
    obtain ⟨hx, hy, hz, -⟩ := h
    exact SectionId.ext (delimited_int.injective ends_nil trivial trivial hx)
      (delimited_nat.injective ends_nil trivial trivial hy)
      (delimited_int.injective ends_nil trivial trivial hz)

/-! ## 2. Slots -/

section Slots

variable [UnicodeTables]

theorem selfDelimiting_sealedPage :
    SelfDelimiting (fun _ : SealedPage => True) SealedPage.debug := by
  apply selfDelimiting_record "SealedPage"
    [("encoding", fun page : SealedPage => str page.encoding),
      ("compression", fun page => str page.compression),
      ("bytes", fun page => DebugText.bytes page.bytes),
      ("digest", fun page => DebugText.bytes page.digest.toList)]
  · intro page page' _ _
    have hstr : ∀ s s' : String, Apart (str s) (str s') := fun _ _ =>
      apart_of_delimited (selfDelimiting_str.mono fun _ _ => trivial) trivial trivial
    have hbytes : ∀ bs bs' : Bytes, Apart (DebugText.bytes bs) (DebugText.bytes bs') := fun _ _ =>
      apart_of_delimited (selfDelimiting_debugBytes.mono fun _ _ => trivial) trivial trivial
    simp only [List.forall_mem_cons]
    exact ⟨hstr _ _, hstr _ _, hbytes _ _, hbytes _ _, fun _ h => absurd h List.not_mem_nil⟩
  · intro page page' _ _ h
    simp only [List.forall_mem_cons] at h
    obtain ⟨hencoding, hcompression, hbytes, -⟩ := h
    obtain ⟨encoding, compression, bytes, digest, hdigest⟩ := page
    obtain ⟨encoding', compression', bytes', digest', hdigest'⟩ := page'
    obtain rfl := selfDelimiting_str.injective trivial trivial trivial hencoding
    obtain rfl := selfDelimiting_str.injective trivial trivial trivial hcompression
    obtain rfl := selfDelimiting_debugBytes.injective trivial trivial trivial hbytes
    simp only [hdigest, hdigest']

/-- The text of a payload, which depends on its pages only. -/
private def pagesText (pages : List SealedPage) : Text :=
  record "SectionPayload" [("schema_id", str SECTION_PAGE_SCHEMA),
    ("pages", list (pages.map SealedPage.debug)),
    ("_extent_family", "IsolatedCubicExtentFamily".toList)]

private theorem selfDelimiting_pagesText :
    SelfDelimiting (fun _ : List SealedPage => True) pagesText := by
  have hlist := selfDelimiting_list (selfDelimiting_sealedPage.mono fun _ _ => trivial)
    fun page rest _ h => by cases h
  apply selfDelimiting_record "SectionPayload"
    [("schema_id", fun _ : List SealedPage => str SECTION_PAGE_SCHEMA),
      ("pages", fun pages => list (pages.map SealedPage.debug)),
      ("_extent_family", fun _ => "IsolatedCubicExtentFamily".toList)]
  · intro pages pages' _ _
    simp only [List.forall_mem_cons]
    exact ⟨apart_self _,
      apart_of_delimited (hlist.mono fun _ _ => trivial) (fun _ _ => trivial) fun _ _ => trivial,
      apart_self _, fun _ h => absurd h List.not_mem_nil⟩
  · intro pages pages' _ _ h
    simp only [List.forall_mem_cons] at h
    exact hlist.injective trivial (fun _ _ => trivial) (fun _ _ => trivial) h.2.1

/-- What a slot's text shows: its presence, and its pages if it has any. -/
def SectionSlot.shown : SectionSlot → Presence × List SealedPage
  | .ready payload => (.ready, payload.pages)
  | .unchanged => (.unchanged, [])
  | .pending => (.pending, [])
  | .unavailable => (.unavailable, [])

/-- Only a ready slot shows pages. -/
def Shown (shown : Presence × List SealedPage) : Prop := shown.1 ≠ .ready → shown.2 = []

omit [UnicodeTables] in
theorem SectionSlot.shown_shown (slot : SectionSlot) : Shown slot.shown := by
  cases slot with
  | ready payload => exact fun h => absurd rfl h
  | unchanged => exact fun _ => rfl
  | pending => exact fun _ => rfl
  | unavailable => exact fun _ => rfl

private def innerText (shown : Presence × List SealedPage) : Text :=
  match shown.1 with
  | .ready => variant "Ready" (pagesText shown.2)
  | .unchanged => "Unchanged".toList
  | .pending => "Pending".toList
  | .unavailable => "Unavailable".toList

private theorem selfDelimiting_innerText : SelfDelimiting Shown innerText := by
  have hready := selfDelimiting_variant "Ready" (selfDelimiting_pagesText.mono fun _ _ => trivial)
  have hname : ∀ shown rest, ∃ more, innerText shown ++ rest = shown.1.name.toList ++ more := by
    rintro ⟨presence, pages⟩ rest
    cases presence with
    | ready => exact ⟨_, List.append_assoc _ _ _⟩
    | unchanged => exact ⟨rest, rfl⟩
    | pending => exact ⟨rest, rfl⟩
    | unavailable => exact ⟨rest, rfl⟩
  -- three letters tell the presences apart
  have hletters : ∀ presence : Presence, 3 ≤ presence.name.toList.length := by
    intro presence
    cases presence <;> decide
  have hapart : ∀ p p' : Presence, p.name.toList.take 3 = p'.name.toList.take 3 → p = p' := by
    intro p p'
    cases p <;> cases p' <;> decide
  rintro ⟨presence, pages⟩ ⟨presence', pages'⟩ rest rest' hshown hshown' _ _ heq
  obtain ⟨more, hmore⟩ := hname (presence, pages) rest
  obtain ⟨more', hmore'⟩ := hname (presence', pages') rest'
  have htake := congrArg (List.take 3) (hmore.symm.trans (heq.trans hmore'))
  rw [List.take_append_of_le_length (hletters presence),
    List.take_append_of_le_length (hletters presence')] at htake
  obtain rfl : presence = presence' := hapart _ _ htake
  by_cases hpresence : presence = .ready
  · subst hpresence
    obtain ⟨rfl, hrest⟩ := hready trivial trivial trivial trivial heq
    exact ⟨rfl, hrest⟩
  · obtain rfl : pages = [] := hshown hpresence
    obtain rfl : pages' = [] := hshown' hpresence
    exact ⟨rfl, List.append_cancel_left heq⟩

private def shownText (shown : Presence × List SealedPage) : Text :=
  record "SectionSlot" [("inner", innerText shown)]

private theorem debug_eq_shownText (slot : SectionSlot) : slot.debug = shownText slot.shown := by
  cases slot <;> rfl

private theorem selfDelimiting_shownText : SelfDelimiting Shown shownText := by
  apply selfDelimiting_record "SectionSlot"
    [("inner", fun shown : Presence × List SealedPage => innerText shown)]
  · intro shown shown' h h'
    simp only [List.forall_mem_cons]
    exact ⟨apart_of_delimited (selfDelimiting_innerText.mono fun _ _ => trivial) h h',
      fun _ h => absurd h List.not_mem_nil⟩
  · intro shown shown' h h' heq
    simp only [List.forall_mem_cons] at heq
    exact selfDelimiting_innerText.injective trivial h h' heq.1

/-! ## 3. Directories -/

/-- What a directory's text shows of its sections, in order. -/
abbrev ShownSections : Type := List (SectionId × (Presence × List SealedPage))

def SectionDirectoryRoot.shown (directory : SectionDirectoryRoot) : ShownSections :=
  directory.entries.toList.map fun entry => (entry.1, entry.2.shown)

def shownSectionsText (sections : ShownSections) : Text :=
  record "SectionDirectoryRoot"
    [("entries", map (sections.map fun entry => (entry.1.debug, shownText entry.2)))]

theorem SectionDirectoryRoot.debug_eq_shownSectionsText (directory : SectionDirectoryRoot) :
    directory.debug = shownSectionsText directory.shown := by
  have hentries : directory.entries.toList.map debugEntry =
      directory.shown.map fun entry => (entry.1.debug, shownText entry.2) := by
    rw [shown, List.map_map]
    refine List.map_congr_left fun entry _ => ?_
    exact Prod.ext rfl (debug_eq_shownText entry.2)
  rw [debug, hentries]
  rfl

omit [UnicodeTables] in
/-- The sections a directory shows are shown as slots are. -/
theorem SectionDirectoryRoot.forall_mem_shown (directory : SectionDirectoryRoot) :
    ∀ entry ∈ directory.shown, True ∧ Shown entry.2 := by
  intro entry hentry
  obtain ⟨⟨id, slot⟩, -, rfl⟩ := List.mem_map.mp hentry
  exact ⟨trivial, slot.shown_shown⟩

/-- **Directories.** The text spells every section's presence and pages. -/
theorem selfDelimiting_shownSections :
    SelfDelimiting (fun sections : ShownSections => ∀ entry ∈ sections, True ∧ Shown entry.2)
      shownSectionsText := by
  have hmap := selfDelimiting_map (selfDelimiting_sectionId.mono fun _ _ => trivial)
    (selfDelimiting_shownText.mono fun _ _ => trivial) fun id rest _ h => by cases h
  apply selfDelimiting_record "SectionDirectoryRoot"
    [("entries", fun sections : ShownSections =>
      map (sections.map fun entry => (entry.1.debug, shownText entry.2)))]
  · intro sections sections' h h'
    simp only [List.forall_mem_cons]
    exact ⟨apart_of_delimited (hmap.mono fun _ _ => trivial) h h',
      fun _ h => absurd h List.not_mem_nil⟩
  · intro sections sections' h h' heq
    simp only [List.forall_mem_cons] at heq
    exact hmap.injective trivial h h' heq.1

/-! ## 4. Dirty frontiers -/

private def entryText (entry : DirtyEntry) : Text :=
  record "DirtyEntry" [("first", variant "SchemaRevision" (nat entry.first.toNat)),
    ("latest", variant "SchemaRevision" (nat entry.latest.toNat)), ("reason", str entry.reason)]

omit [UnicodeTables] in
private theorem selfDelimiting_schemaRevision :
    SelfDelimiting (fun _ : UInt64 => True) fun r => variant "SchemaRevision" (nat r.toNat) :=
  selfDelimiting_variant "SchemaRevision"
    (delimited_nat.comap (fun _ _ => trivial) fun _ _ _ _ h => UInt64.toNat_inj.mp h)

private theorem selfDelimiting_entryText : SelfDelimiting (fun _ : DirtyEntry => True) entryText := by
  apply selfDelimiting_record "DirtyEntry"
    [("first", fun entry : DirtyEntry => variant "SchemaRevision" (nat entry.first.toNat)),
      ("latest", fun entry => variant "SchemaRevision" (nat entry.latest.toNat)),
      ("reason", fun entry => str entry.reason)]
  · intro entry entry' _ _
    simp only [List.forall_mem_cons]
    have hrevision : ∀ r r' : UInt64, Apart (variant "SchemaRevision" (nat r.toNat))
        (variant "SchemaRevision" (nat r'.toNat)) := fun _ _ =>
      apart_of_delimited (selfDelimiting_schemaRevision.mono fun _ _ => trivial) trivial trivial
    exact ⟨hrevision _ _, hrevision _ _,
      apart_of_delimited (selfDelimiting_str.mono fun _ _ => trivial) trivial trivial,
      fun _ h => absurd h List.not_mem_nil⟩
  · intro entry entry' _ _ h
    simp only [List.forall_mem_cons] at h
    obtain ⟨hfirst, hlatest, hreason, -⟩ := h
    obtain ⟨first, latest, reason⟩ := entry
    obtain ⟨first', latest', reason'⟩ := entry'
    obtain rfl := selfDelimiting_schemaRevision.injective trivial trivial trivial hfirst
    obtain rfl := selfDelimiting_schemaRevision.injective trivial trivial trivial hlatest
    obtain rfl := selfDelimiting_str.injective trivial trivial trivial hreason
    rfl

/-- **Dirty frontiers.** The text spells the frontier. -/
theorem DirtyFrontier.selfDelimiting_debug :
    SelfDelimiting (fun _ : DirtyFrontier => True) fun frontier => frontier.debug := by
  have hmap := selfDelimiting_map (selfDelimiting_sectionId.mono fun _ _ => trivial)
    (selfDelimiting_entryText.mono fun _ _ => trivial) fun id rest _ h => by cases h
  apply selfDelimiting_record "DirtyFrontier"
    [("world_id", fun frontier : DirtyFrontier => str frontier.worldId),
      ("generation", fun frontier => nat frontier.generation.toNat),
      ("entries", fun frontier =>
        map (frontier.entries.toList.map fun entry => (entry.1.debug, entryText entry.2)))]
  · intro frontier frontier' _ _
    simp only [List.forall_mem_cons]
    exact ⟨apart_of_delimited (selfDelimiting_str.mono fun _ _ => trivial) trivial trivial,
      apart_of_delimited delimited_nat trivial trivial,
      apart_of_delimited (hmap.mono fun _ _ => trivial) (fun _ _ => ⟨trivial, trivial⟩)
        fun _ _ => ⟨trivial, trivial⟩,
      fun _ h => absurd h List.not_mem_nil⟩
  · intro frontier frontier' _ _ h
    simp only [List.forall_mem_cons] at h
    obtain ⟨hworld, hgeneration, hentries, -⟩ := h
    obtain ⟨worldId, generation, entries⟩ := frontier
    obtain ⟨worldId', generation', entries'⟩ := frontier'
    obtain rfl := selfDelimiting_str.injective trivial trivial trivial hworld
    obtain rfl := UInt64.toNat_inj.mp
      (delimited_nat.injective ends_nil trivial trivial hgeneration)
    have hlist := hmap.injective trivial (fun _ _ => ⟨trivial, trivial⟩)
      (fun _ _ => ⟨trivial, trivial⟩) hentries
    obtain rfl : entries = entries' := BTreeMap.toList_injective hlist
    rfl

end Slots

end LumioVoxel
