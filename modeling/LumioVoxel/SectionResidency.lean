import LumioVoxel.PersistedContents

/-!
# Residency

A section is ready, a ticket, asked for, or out of reach, and a directory lets it go from one
to another only so that whatever is delivered was asked for.  A world that runs asks for
nothing: what it lets go, an unload or a restore, does not come back.
-/

namespace LumioVoxel

open DebugText Fallible StepRuns

/-! ## 1. Conversions -/

/-- The presences one conversion leads to. -/
def Presence.leads (source target : Presence) : Bool :=
  source == target ||
    match source, target with
    | .unchanged, .pending => true
    | .pending, _ => true
    | .ready, .unchanged => true
    | .unavailable, .pending => true
    | .unavailable, .unchanged => true
    | _, _ => false

theorem internPresence_eq_ok {name : String} {presence : Presence} :
    internPresence name = .ok presence ↔ name = presence.name := by
  constructor
  · intro h
    have hfound := List.find?_some (someOr_eq_ok.mp h)
    exact (beq_iff_eq.mp hfound).symm
  · rintro rfl
    exact internPresence_name presence

/-- What a conversion accepts: a presence by its name, one the slot leads to, and the payload
of a slot that becomes ready; one that is ready may be left as it is. -/
theorem SectionSlot.tryConvert_eq_ok {slot next : SectionSlot} {presence : String}
    {payload : Option SectionPayload} :
    slot.tryConvert presence payload = .ok next ↔
      presence = next.presence.name ∧ slot.presence.leads next.presence = true ∧
        (payload = next.payload ∨ next = slot ∧ payload = none) := by
  constructor
  · intro h
    obtain ⟨target, htarget, -⟩ := bind_eq_ok.mp h
    obtain rfl := internPresence_eq_ok.mp htarget
    simp only [tryConvert, internPresence_name, ok_bind] at h
    cases slot <;> cases target <;> cases payload <;> simp [SectionSlot.presence] at h
    all_goals
      subst h
      simp [SectionSlot.presence, SectionSlot.payload, Presence.leads]
  · rintro ⟨rfl, hleads, hpayload⟩
    simp only [tryConvert, internPresence_name, ok_bind]
    cases slot <;> cases next <;> simp [SectionSlot.presence, Presence.leads] at hleads
    all_goals
      rcases hpayload with rfl | ⟨hsame, rfl⟩
      · rfl
      · cases hsame <;> rfl

/-- What is delivered was asked for. -/
theorem SectionSlot.pending_of_tryConvert {slot : SectionSlot} {presence : String}
    {payload : Option SectionPayload} {page : SectionPayload}
    (h : slot.tryConvert presence payload = .ok (.ready page)) (hnew : slot ≠ .ready page) :
    presence = "Ready" ∧ payload = some page ∧ (slot = .pending ∨ ∃ old, slot = .ready old) := by
  obtain ⟨rfl, hleads, hpayload⟩ := SectionSlot.tryConvert_eq_ok.mp h
  rcases hpayload with rfl | ⟨hsame, -⟩
  · refine ⟨rfl, rfl, ?_⟩
    cases slot with
    | ready old => exact .inr ⟨old, rfl⟩
    | pending => exact .inl rfl
    | unchanged => cases hleads
    | unavailable => cases hleads
  · exact absurd hsame.symm hnew

/-! ## 2. Directories under construction -/

namespace SectionDirectoryBuilder

/-- Validate the transition, then write. -/
def convert (builder : SectionDirectoryBuilder) (sectionId presence : String)
    (payload : Option SectionPayload) : Except SectionError SectionDirectoryBuilder := do
  let id ← (SectionId.parse sectionId).mapError SectionError.key
  let current ← someOr builder.entries[id]? .invalidHandle
  let next ← current.tryConvert presence payload
  return ⟨builder.entries.insert id next⟩

theorem convert_eq_ok {builder built : SectionDirectoryBuilder} {sectionId presence : String}
    {payload : Option SectionPayload} :
    builder.convert sectionId presence payload = .ok built ↔
      ∃ (id : SectionId) (current next : SectionSlot), sectionId = id.key ∧
        builder.entries[id]? = some current ∧ current.tryConvert presence payload = .ok next ∧
        built = ⟨builder.entries.insert id next⟩ := by
  simp only [convert, bind_eq_ok, mapError_eq_ok, SectionId.parse_eq_ok, someOr_eq_ok, pure_eq_ok]
  constructor
  · rintro ⟨id, hid, current, hcurrent, next, hnext, hbuilt⟩
    exact ⟨id, current, next, hid, hcurrent, hnext, hbuilt.symm⟩
  · rintro ⟨id, current, next, hid, hcurrent, hnext, hbuilt⟩
    exact ⟨id, hid, current, hcurrent, next, hnext, hbuilt.symm⟩

end SectionDirectoryBuilder

/-- One request to a directory under construction. -/
inductive DirectoryEdit where
  | insert (sectionId : String) (slot : SectionSlot)
  | convert (sectionId presence : String) (payload : Option SectionPayload)

namespace SectionDirectoryBuilder

variable {builder : SectionDirectoryBuilder} {id : SectionId} {page : SectionPayload}

def tryEdit (builder : SectionDirectoryBuilder) :
    DirectoryEdit → Except SectionError SectionDirectoryBuilder
  | .insert sectionId slot => builder.insert sectionId slot
  | .convert sectionId presence payload => builder.convert sectionId presence payload

/-- A refused request leaves the directory as it was. -/
def edit (builder : SectionDirectoryBuilder) (request : DirectoryEdit) : SectionDirectoryBuilder :=
  (builder.tryEdit request).toOption.getD builder

/-- The request brings the section the payload. -/
def Brings (id : SectionId) (page : SectionPayload) : DirectoryEdit → Prop
  | .insert sectionId slot => sectionId = id.key ∧ slot = .ready page
  | .convert sectionId presence payload =>
    sectionId = id.key ∧ presence = "Ready" ∧ payload = some page

/-- The request puts the section in, whatever was there. -/
def Imposes (id : SectionId) : DirectoryEdit → Prop
  | .insert sectionId _ => sectionId = id.key
  | .convert _ _ _ => False

/-- A step leaves a payload alone, or it is one the request brings; and where nothing was
imposed, the section had a payload already or was asked for. -/
theorem ready_edit {request : DirectoryEdit}
    (h : (builder.edit request).entries[id]? = some (.ready page)) :
    builder.entries[id]? = some (.ready page) ∨
      Brings id page request ∧ (Imposes id request ∨ builder.entries[id]? = some .pending ∨
        ∃ old, builder.entries[id]? = some (.ready old)) := by
  cases hedit : builder.tryEdit request with
  | error err =>
    rw [edit, hedit] at h
    exact .inl h
  | ok built =>
    rw [edit, hedit] at h
    replace h : built.entries[id]? = some (.ready page) := h
    cases request with
    | insert sectionId slot =>
      obtain ⟨named, hkey, rfl⟩ := insert_eq_ok hedit
      rw [BTreeMap.getElem?_insert] at h
      split at h
      · rename_i hnamed
        obtain rfl := hnamed
        exact .inr ⟨⟨hkey, Option.some.inj h⟩, .inl hkey⟩
      · exact .inl h
    | convert sectionId presence payload =>
      obtain ⟨named, current, next, hkey, hcurrent, hnext, rfl⟩ := convert_eq_ok.mp hedit
      rw [BTreeMap.getElem?_insert] at h
      split at h
      · rename_i hnamed
        obtain rfl := hnamed
        obtain rfl := Option.some.inj h
        by_cases hsame : current = .ready page
        · exact .inl (hcurrent.trans (congrArg some hsame))
        · obtain ⟨hpresence, hpayload, hbefore⟩ := SectionSlot.pending_of_tryConvert hnext hsame
          refine .inr ⟨⟨hkey, hpresence, hpayload⟩, .inr ?_⟩
          rcases hbefore with rfl | ⟨old, rfl⟩
          · exact .inl hcurrent
          · exact .inr ⟨old, hcurrent⟩
      · exact .inl h

/-- **Nothing is delivered unasked.** A section that had no payload and has one after any
requests, none of which put it in, was pending at some point, and the payload is one that a
later request brought. -/
theorem deliveries_of_run (builder : SectionDirectoryBuilder) (requests : List DirectoryEdit)
    (id : SectionId) (page : SectionPayload)
    (hfresh : ∀ old, builder.entries[id]? ≠ some (.ready old))
    (hasked : ∀ request ∈ requests, ¬ Imposes id request)
    (hready : (run edit builder requests).entries[id]? = some (.ready page)) :
    ∃ before after, requests = before ++ after ∧
      (run edit builder before).entries[id]? = some .pending ∧
      ∃ request ∈ after, Brings id page request := by
  induction requests using List.reverseRecOn generalizing page with
  | nil => exact absurd hready (hfresh page)
  | append_singleton first request ih =>
    have hfirst : ∀ other ∈ first, ¬ Imposes id other :=
      fun other hother => hasked other (List.mem_append_left _ hother)
    rw [run_append] at hready
    rcases ready_edit hready with hold | ⟨hbrings, himposed | hpending | ⟨old, hold⟩⟩
    · obtain ⟨before, after, rfl, hpending, other, hother, hbrings⟩ := ih page hfirst hold
      exact ⟨before, after ++ [request], List.append_assoc .., hpending, other,
        List.mem_append_left _ hother, hbrings⟩
    · exact absurd himposed (hasked request (List.mem_append_right _ List.mem_cons_self))
    · exact ⟨first, [request], rfl, hpending, request, List.mem_cons_self, hbrings⟩
    · obtain ⟨before, after, rfl, hpending, -⟩ := ih old hfirst hold
      exact ⟨before, after ++ [request], List.append_assoc .., hpending, request,
        List.mem_append_right _ List.mem_cons_self, hbrings⟩

/-- A ticket, asked for and delivered. -/
theorem deliveries_of_run_ticket :
    ∃ before after, [DirectoryEdit.convert originSection.key "Pending" none,
        .convert originSection.key "Ready" (some (.ofStorage (.uniform ⟨1⟩)))] = before ++ after ∧
      (run edit ⟨(∅ : BTreeMap SectionId SectionSlot).insert originSection .unchanged⟩
        before).entries[originSection]? = some .pending ∧
      ∃ request ∈ after, Brings originSection (.ofStorage (.uniform ⟨1⟩)) request := by
  have hconvert : ∀ (builder : SectionDirectoryBuilder) (current next : SectionSlot),
      builder.entries[originSection]? = some current → current.presence.leads next.presence →
      (builder.edit (.convert originSection.key next.presence.name next.payload)).entries[
        originSection]? = some next := by
    intro builder current next hcurrent hleads
    have hnext := SectionSlot.tryConvert_eq_ok.mpr ⟨rfl, hleads, .inl rfl⟩
    have hbuilt := convert_eq_ok.mpr ⟨originSection, current, next, rfl, hcurrent, hnext, rfl⟩
    rw [edit, tryEdit, hbuilt]
    exact (BTreeMap.getElem?_insert ..).trans (if_pos rfl)
  have hticket : (SectionDirectoryBuilder.mk ((∅ : BTreeMap SectionId SectionSlot).insert
      originSection .unchanged)).entries[originSection]? = some .unchanged :=
    (BTreeMap.getElem?_insert ..).trans (if_pos rfl)
  refine deliveries_of_run _ _ originSection _ ?_ ?_ ?_
  · intro old hold
    cases hticket.symm.trans hold
  · intro request hrequest
    rcases List.mem_cons.mp hrequest with rfl | hrequest
    · exact id
    · rw [List.mem_singleton.mp hrequest]
      exact id
  · exact hconvert _ _ (.ready (.ofStorage (.uniform ⟨1⟩)))
      (hconvert _ _ .pending hticket rfl) rfl

end SectionDirectoryBuilder

/-! ## 3. Sections of a running world -/

section Worlds

variable [UnicodeTables]

namespace WorldSession

variable {s : WorldSession} {roots : PublishedStateRoot → Prop} {id : SectionId}

/-- The section has a payload. -/
def Resident (s : WorldSession) (id : SectionId) : Prop := ∃ payload, s.Holds id payload

/-- The step lets the section go. -/
def LetsGo (s : WorldSession) (op : WorldOp) (id : SectionId) : Prop :=
  s.TakesRestore op ∨ s.Unloads op id

/-- The step leaves every slot alone but those of sections that stay resident. -/
theorem resident_step (h : Known roots s) {op : WorldOp} (hno : ¬ s.LetsGo op id) :
    s.Resident id ∧ (s.step op).Resident id ∨
      ¬ s.Resident id ∧ s.SameSlot (s.step op) id := by
  have hsame : s.SameSlot (s.step op) id → s.Resident id ∧ (s.step op).Resident id ∨
      ¬ s.Resident id ∧ s.SameSlot (s.step op) id := by
    intro hsame
    by_cases hresident : s.Resident id
    · obtain ⟨payload, hholds⟩ := hresident
      exact .inl ⟨⟨payload, hholds⟩, payload, hsame.trans hholds⟩
    · exact .inr ⟨hresident, hsame⟩
  cases effect_step s op with
  | kept hroot _ => exact hsame (by rw [SameSlot, hroot])
  | committed token d receipt hcommits =>
    rcases hcommits.slots h id with ⟨-, hbefore, hafter⟩ | ⟨-, hkept⟩
    · exact .inl ⟨hbefore, hafter⟩
    · exact hsame hkept
  | acked evidence coverage _ hacked _ => exact hsame (by rw [SameSlot, hacked.directory])
  | unloaded hook named hop hunloaded _ _ =>
    by_cases hname : id = named
    · subst hname
      exact absurd (.inr ⟨⟨hook, hop⟩, hunloaded⟩) hno
    · exact hsame (hunloaded.others id hname)
  | restored snapshot candidate hrestores _ =>
    exact absurd (.inl ⟨snapshot, candidate, hrestores⟩) hno

theorem not_resident_of_letsGo {op : WorldOp} (h : s.LetsGo op id) :
    ¬ (s.step op).Resident id := by
  rintro ⟨payload, hholds⟩
  rcases h with hrestore | hunload
  · exact cold_of_takesRestore hrestore id payload hholds
  · cases hholds.symm.trans hunload.2.ticket

/-- What is resident in the end was resident throughout. -/
theorem resident_run_iff {ops : List WorldOp} (h : Known (fun _ => True) s) :
    (run step s ops).Resident id ↔
      s.Resident id ∧ Along step (fun s op => ¬ s.LetsGo op id) s ops := by
  induction ops generalizing s with
  | nil => exact (and_iff_left trivial).symm
  | cons op rest ih =>
    rw [run_cons, ih (known_step h trivial)]
    by_cases hgo : s.LetsGo op id
    · exact ⟨fun hafter => absurd hafter.1 (not_resident_of_letsGo hgo),
        fun hbefore => absurd hgo hbefore.2.1⟩
    · have hstep := resident_step h hgo
      constructor
      · rintro ⟨hafter, hrest⟩
        refine ⟨?_, hgo, hrest⟩
        rcases hstep with ⟨hbefore, -⟩ | ⟨-, hsame⟩
        · exact hbefore
        · obtain ⟨payload, hholds⟩ := hafter
          exact ⟨payload, hsame.symm.trans hholds⟩
      · rintro ⟨hbefore, -, hrest⟩
        rcases hstep with ⟨-, hafter⟩ | ⟨hnot, -⟩
        · exact ⟨hafter, hrest⟩
        · exact absurd hbefore hnot

/-- Without a restore, a section that has no payload keeps its slot. -/
theorem sameSlot_run {ops : List WorldOp} (h : Known (fun _ => True) s)
    (hops : Along step (fun s op => ¬ s.TakesRestore op) s ops) (hnot : ¬ s.Resident id) :
    s.SameSlot (run step s ops) id := by
  induction ops generalizing s with
  | nil => rfl
  | cons op rest ih =>
    have hgo : ¬ s.LetsGo op id := by
      rintro (hrestore | hunload)
      · exact hops.1 hrestore
      · exact hnot hunload.2.resident
    rcases resident_step h hgo with ⟨hresident, -⟩ | ⟨-, hsame⟩
    · exact absurd hresident hnot
    · have hstill : ¬ (s.step op).Resident id := by
        rintro ⟨payload, hholds⟩
        exact hnot ⟨payload, hsame.symm.trans hholds⟩
      exact (ih (known_step h trivial) hops.2 hstill).trans hsame

/-- A section that is let go without a restore is a ticket from then on. -/
theorem ticket_run {ops : List WorldOp} (h : Known (fun _ => True) s)
    (hops : Along step (fun s op => ¬ s.TakesRestore op) s ops) (hresident : s.Resident id)
    (hgone : ¬ (run step s ops).Resident id) :
    (run step s ops).root.directory.entries[id]? = some .unchanged := by
  induction ops generalizing s with
  | nil => exact absurd hresident hgone
  | cons op rest ih =>
    have hknown : Known (fun _ => True) (s.step op) := known_step h trivial
    by_cases hgo : s.LetsGo op id
    · have hunload : s.Unloads op id := hgo.resolve_left hops.1
      have hkept := sameSlot_run hknown hops.2 (not_resident_of_letsGo hgo)
      exact hkept.trans hunload.2.ticket
    · rcases resident_step h hgo with ⟨-, hafter⟩ | ⟨hnot, -⟩
      · exact ih hknown hops.2 hafter hgone
      · exact absurd hresident hnot

/-- Where each section is after a run. -/
structure Residency (s : WorldSession) (ops : List WorldOp) (id : SectionId) : Prop where
  resident : (run step s ops).Resident id ↔
    s.Resident id ∧ Along step (fun s op => ¬ s.LetsGo op id) s ops
  gone : Along step (fun s op => ¬ s.TakesRestore op) s ops → ¬ (run step s ops).Resident id →
    (run step s ops).root.directory.entries[id]? = s.root.directory.entries[id]? ∧
        ¬ s.Resident id ∨
      (run step s ops).root.directory.entries[id]? = some .unchanged ∧ s.Resident id
  restored : ∀ first op rest snapshot candidate, ops = first ++ op :: rest →
    (run step s first).Restores op snapshot candidate →
    Along step (fun s op => ¬ s.TakesRestore op) ((run step s first).step op) rest →
    (run step s ops).root.directory.entries[id]? =
      snapshot.capture.root.stamp.sectionRevisionSet[id.key]?.map fun _ => SectionSlot.unchanged
  written : ∀ first op rest revision, ops = first ++ op :: rest →
    (run step s first).Writes op id revision →
    s.Resident id ∧ Along step (fun s op => ¬ s.LetsGo op id) s first

/-- **What a world lets go does not come back.** A section has a payload exactly if it had
one when the world opened and has neither been unloaded nor been part of a restore since;
otherwise it is where it was, or a ticket, and after a restore the captured cut says which.
Only sections that never left are written. -/
theorem residency_of_run (world : WorldInstance) (ops : List WorldOp) (id : SectionId) :
    (start world).Residency ops id := by
  have hknown : Known (fun _ => True) (start world) := known_start trivial
  have hreached : ∀ first, Known (fun _ => True) (run step (start world) first) :=
    fun first => known_run hknown fun _ _ => trivial
  refine ⟨resident_run_iff hknown, ?_, ?_, ?_⟩
  · intro hops hgone
    by_cases hresident : (start world).Resident id
    · exact .inr ⟨ticket_run hknown hops hresident hgone, hresident⟩
    · exact .inl ⟨sameSlot_run hknown hops hresident, hresident⟩
  · rintro first op rest snapshot candidate rfl hrestores hrest
    have hcut := hrestores.cut
    have hafter : ¬ ((run step (start world) first).step op).Resident id := by
      rintro ⟨payload, hholds⟩
      exact hcut.cold id payload hholds
    have hsame := sameSlot_run (known_step (hreached first) trivial) hrest hafter
    rw [run_append]
    exact hsame.trans (hcut.slots id)
  · rintro first op rest revision rfl ⟨token, d, receipt, hcommits, hnames, -⟩
    exact (resident_run_iff hknown).mp (hcommits.committed.draftOf.resident id hnames)

end WorldSession

end Worlds

end LumioVoxel
