import HomeControl.Loader

/-!
# Sections and devices

`handler` compares the section of an entry with the name of the record at the head, and
with no other.

* `load_and_lookup` says what this gives for any stream of entries: one record for each
  maximal run of entries of one section, the latest run first, and a lookup that finds
  the latest run with the key.
* A file may open a section twice.  `OneDevice` says that a section is one device all
  the same, and `oneDevice_iff_contiguous` that this holds exactly for the streams in
  which no section comes back after another.
-/

namespace HomeControl

open LastWrite

variable {events : List Event}

/-- The key of the device that a section makes. -/
def finalKey (es : List Event) : Int := lastWrite setsKey 0 es

theorem findDeviceByKey_load_eq (events : List Event) (k : Int) :
    findDeviceByKey (load events) k =
      (sections events).findIdx? fun es => finalKey es == k := by
  rw [load_eq, findDeviceByKey, List.findIdx?_map]
  rfl

/-- A key without a section is the only key that is not found. -/
theorem findDeviceByKey_load_eq_none_iff (events : List Event) (k : Int) :
    findDeviceByKey (load events) k = none ↔ ∀ es ∈ sections events, finalKey es ≠ k := by
  rw [findDeviceByKey_load_eq, List.findIdx?_eq_none_iff]
  simp only [beq_eq_false_iff_ne]

/-- The loader against its reference.  The stream is cut into its maximal runs of
entries of one section, the latest first; the list has the record of each run, in this
order, under the name of its section; and the lookup finds the latest run whose final
key it is given, or nothing when no run has this key. -/
theorem load_and_lookup (events : List Event) :
    ((sections events).reverse.flatten = events ∧ [] ∉ sections events ∧
      (∀ es ∈ sections events, ∀ e ∈ es, ∀ e' ∈ es, e.sectionName = e'.sectionName) ∧
      (sections events).IsChain fun es es' =>
        ∀ e ∈ es, ∀ e' ∈ es', e.sectionName ≠ e'.sectionName) ∧
    load events = (sections events).map Gdevice.ofSection ∧
    (∀ es ∈ sections events, ∀ e ∈ es, (Gdevice.ofSection es).devName = e.sectionName) ∧
    ∀ k, findDeviceByKey (load events) k =
        ((sections events).findIdx? fun es => finalKey es == k) ∧
      (findDeviceByKey (load events) k = none ↔
        ∀ es ∈ sections events, finalKey es ≠ k) := by
  refine ⟨⟨flatten_sections events, Runs.nil_notMem_runs _ events, ?_, Runs.isChain_runs events⟩,
    load_eq events, ?_, ?_⟩
  · intro es hes e he e' he'
    exact Runs.key_eq_of_mem_runs hes he he'
  · intro es hes e he
    exact (sectionName_of_mem hes he).symm
  · intro k
    exact ⟨findDeviceByKey_load_eq events k, findDeviceByKey_load_eq_none_iff events k⟩

/-! ## One section, one device -/

/-- What the stream says under one section. -/
def entriesOf (events : List Event) (sectionName : CString) : List Event :=
  events.filter fun e => decide (e.sectionName = sectionName)

/-- No two devices have one name, and each holds what the whole stream says under its
name. -/
structure OneDevice (events : List Event) : Prop where
  unique : ((load events).map Gdevice.devName).Nodup
  whole : ∀ d ∈ load events, d = Gdevice.ofSection (entriesOf events d.devName)

/-- The record of a section has the name of its entries. -/
theorem devName_ne_iff {es es' : List Event} (hes : es ∈ sections events)
    (hes' : es' ∈ sections events) :
    (Gdevice.ofSection es).devName ≠ (Gdevice.ofSection es').devName ↔
      ∀ e ∈ es, ∀ e' ∈ es', e.sectionName ≠ e'.sectionName := by
  constructor
  · intro hne e he e' he'
    rw [sectionName_of_mem hes he, sectionName_of_mem hes' he']
    exact hne
  · intro hall
    have hne : ∀ es ∈ sections events, es ≠ [] := fun es hes hnil =>
      Runs.nil_notMem_runs Event.sectionName events (hnil ▸ hes)
    have hlast := List.getLast_mem (hne es hes)
    have hlast' := List.getLast_mem (hne es' hes')
    rw [← sectionName_of_mem hes hlast, ← sectionName_of_mem hes' hlast']
    exact hall _ hlast _ hlast'

/-- The names of the devices repeat exactly when a section comes back. -/
theorem nodup_devName_iff (events : List Event) :
    ((load events).map Gdevice.devName).Nodup ↔ Runs.Contiguous Event.sectionName events := by
  rw [← Runs.pairwise_runs_iff, load_eq, List.map_map, List.nodup_iff_pairwise_ne,
    List.pairwise_map]
  exact List.Pairwise.iff_of_mem fun hes hes' => devName_ne_iff hes hes'

/-- A section is one device exactly when no section comes back: an entry whose section
has occurred before follows directly on an entry of the same section. -/
theorem oneDevice_iff_contiguous (events : List Event) :
    OneDevice events ↔ Runs.Contiguous Event.sectionName events := by
  constructor
  · intro h
    exact (nodup_devName_iff events).mp h.unique
  · intro h
    refine ⟨(nodup_devName_iff events).mpr h, fun d hd => ?_⟩
    rw [load_eq] at hd
    obtain ⟨es, hes, rfl⟩ := List.mem_map.mp hd
    have hne : es ≠ [] := fun hnil => Runs.nil_notMem_runs Event.sectionName events (hnil ▸ hes)
    have hlast := List.getLast_mem hne
    rw [entriesOf, ← sectionName_of_mem hes hlast, Runs.filter_eq_of_mem_runs h hes hlast]

/-- A lock whose section is opened twice, with the section of the fan in between. -/
def reopened : List Event :=
  [⟨ascii "lock", ascii "key", ascii "0x44", by decide⟩,
   ⟨ascii "fan", ascii "key", ascii "0x43", by decide⟩,
   ⟨ascii "lock", ascii "check_face_status", ascii "1", by decide⟩]

/-- The face check does not guard the key that its own section sets: the device with the
key 0x44 is another one. -/
theorem not_oneDevice_reopened :
    ¬ OneDevice reopened ∧
      (findDeviceByKey (load reopened) 0x44).bind (fun i => (load reopened)[i]?) =
        some ⟨ascii "lock", 0x44, 0, 0, 0, 0, 0⟩ := by
  refine ⟨fun h => ?_, by decide +kernel⟩
  have hnodup := h.unique
  have hnames : (load reopened).map Gdevice.devName =
      [ascii "lock", ascii "fan", ascii "lock"] := by decide +kernel
  rw [hnames] at hnodup
  exact absurd hnodup (by decide)

end HomeControl
