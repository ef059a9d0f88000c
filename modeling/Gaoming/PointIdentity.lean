import Gaoming.AgentUpload
import Gaoming.Delimited
import Gaoming.WireRoundTrip

/-!
# Points and their identities

`appendMetricPoints` and `metricPointIdentity` of the agent on Go strings, which are any
bytes. A range over a map visits the keys in an order of the runtime's choice, so each
point comes with the order its one visit takes.
-/

namespace Gaoming.Native

/-- A nil map reads as an empty one. -/
def MetricPoint.labelMap (p : MetricPoint) : Std.ExtTreeMap Bytes Bytes := p.labels.getD ∅

structure Visit where
  point : MetricPoint
  keys : List Bytes
  perm : keys.Perm point.labelMap.keys

/-- `sort.Strings`. -/
def sortStrings (keys : List Bytes) : List Bytes := keys.mergeSort fun a b => (compare a b).isLE

def metricPointIdentity (point : MetricPoint) (keys : List Bytes) : Bytes :=
  (sortStrings keys).foldl
    (fun identity key => identity ++ (0x00 :: (key ++ 0x3D :: point.labelMap.getD key [])))
    point.name

def stamped (now : GoTime) (point : MetricPoint) : MetricPoint :=
  if point.ts.instant.isZero then { point with ts := now } else point

/-- The loop over the extra points, with the identities already seen. -/
def appendExtraPoints (now : GoTime) : List Bytes → List MetricPoint → List Visit → List MetricPoint
  | _, dst, [] => dst
  | seen, dst, visit :: rest =>
    let point := stamped now visit.point
    let identity := metricPointIdentity point visit.keys
    if identity ∈ seen then appendExtraPoints now seen dst rest
    else appendExtraPoints now (identity :: seen) (dst ++ [point]) rest

def appendMetricPoints (dst extra : List Visit) (now : GoTime) : List MetricPoint :=
  appendExtraPoints now (dst.map fun v => metricPointIdentity v.point v.keys)
    (dst.map (·.point)) extra

-- The sorted keys are those of the map, whatever the order of the visit.

theorem isLE_or_isLE (a b : Bytes) : ((compare a b).isLE || (compare b a).isLE) = true := by
  have hswap : compare a b = (compare b a).swap := Std.OrientedCmp.eq_swap
  rw [hswap]
  cases compare b a <;> rfl

theorem pairwise_sortStrings (keys : List Bytes) :
    (sortStrings keys).Pairwise fun a b => (compare a b).isLE :=
  List.pairwise_mergeSort (fun _ _ _ => Std.TransCmp.isLE_trans) isLE_or_isLE keys

theorem sortStrings_of_perm {m : Std.ExtTreeMap Bytes Bytes} {keys : List Bytes}
    (h : keys.Perm m.keys) : sortStrings keys = m.keys := by
  have hkeys : m.keys.Pairwise fun a b => (compare a b).isLE :=
    m.ordered_keys.imp fun h => by rw [h]; rfl
  refine List.Perm.eq_of_pairwise (fun a b _ _ hab hba => ?_) (pairwise_sortStrings keys) hkeys
    ((List.mergeSort_perm keys _).trans h)
  exact Std.LawfulEqCmp.eq_of_compare (Std.OrientedCmp.isLE_antisymm hab hba)

theorem foldl_attributes (name : Bytes) (attributes : List (Bytes × Bytes)) :
    attributes.foldl (fun identity a => identity ++ (0x00 :: (a.1 ++ 0x3D :: a.2))) name =
      Delimited.labelled 0x00 0x3D name attributes := by
  induction attributes generalizing name with
  | nil => simp [Delimited.labelled]
  | cons a rest ih => simp [ih, Delimited.labelled]

theorem metricPointIdentity_eq {point : MetricPoint} {keys : List Bytes}
    (h : keys.Perm point.labelMap.keys) :
    metricPointIdentity point keys =
      Delimited.labelled 0x00 0x3D point.name point.labelMap.toList := by
  rw [metricPointIdentity, sortStrings_of_perm h, ← point.labelMap.map_fst_toList_eq_keys,
    List.foldl_map, ← foldl_attributes]
  refine List.foldl_ext _ _ _ fun identity a ha => ?_
  have hvalue : point.labelMap.getD a.1 [] = a.2 := by
    rw [Std.ExtTreeMap.getD_eq_getD_getElem?, Std.ExtTreeMap.mem_toList_iff_getElem?_eq_some.mp ha,
      Option.getD_some]
  rw [hvalue]

/-- The name and the label map, which tell points apart. -/
def MetricPoint.series (p : MetricPoint) : Bytes × Std.ExtTreeMap Bytes Bytes :=
  (p.name, p.labelMap)

/-- Name, label keys and label values without NUL, and no `=` in a key. -/
structure MetricPoint.Plain (p : MetricPoint) : Prop where
  name : 0x00 ∉ p.name
  key : ∀ k : Bytes, k ∈ p.labelMap → 0x00 ∉ k ∧ 0x3D ∉ k
  value : ∀ k v : Bytes, p.labelMap[k]? = some v → 0x00 ∉ v

theorem MetricPoint.Plain.readable {p : MetricPoint} (h : p.Plain) :
    Delimited.Readable 0x00 0x3D p.name p.labelMap.toList where
  name := h.name
  key a ha := h.key a.1 (Std.ExtTreeMap.mem_iff_isSome_getElem?.mpr
    (by rw [Std.ExtTreeMap.mem_toList_iff_getElem?_eq_some.mp ha, Option.isSome_some]))
  value a ha := h.value a.1 a.2 (Std.ExtTreeMap.mem_toList_iff_getElem?_eq_some.mp ha)

theorem metricPointIdentity_inj {v w : Visit} (hv : v.point.Plain) (hw : w.point.Plain) :
    metricPointIdentity v.point v.keys = metricPointIdentity w.point w.keys ↔
      v.point.series = w.point.series := by
  rw [metricPointIdentity_eq v.perm, metricPointIdentity_eq w.perm]
  constructor
  · intro h
    obtain ⟨hname, hlabels⟩ := Delimited.labelled_inj (by decide) hv.readable hw.readable h
    exact Prod.ext hname (Std.ExtTreeMap.toList_inj.mp hlabels)
  · intro h
    obtain ⟨hname, hlabels⟩ := Prod.mk.inj h
    rw [hname, hlabels]

theorem metricPointIdentity_stamped (now : GoTime) (p : MetricPoint) (keys : List Bytes) :
    metricPointIdentity (stamped now p) keys = metricPointIdentity p keys := by
  unfold stamped
  split_ifs <;> rfl

def Visit.identity (v : Visit) : Bytes := metricPointIdentity v.point v.keys

theorem appendExtraPoints_eq (now : GoTime) (seen : List Bytes) (dst : List MetricPoint)
    (extra : List Visit) :
    appendExtraPoints now seen dst extra =
      dst ++ (FirstOccurrence.keep Visit.identity seen extra).map fun v => stamped now v.point := by
  induction extra generalizing seen dst with
  | nil => simp [appendExtraPoints, FirstOccurrence.keep]
  | cons v rest ih =>
    have hid : metricPointIdentity (stamped now v.point) v.keys = v.identity :=
      metricPointIdentity_stamped now v.point v.keys
    rw [appendExtraPoints, FirstOccurrence.keep]
    simp only [hid]
    split_ifs with hseen
    · exact ih _ _
    · rw [ih, List.append_assoc, List.singleton_append, List.map_cons]

/-- The extra points whose series is that of no point of `dst` and of no earlier extra
point. -/
def newSeries (dst extra : List MetricPoint) : List MetricPoint :=
  (extra.zipIdx.filter fun (p : MetricPoint × ℕ) =>
    decide ((∀ q ∈ dst, q.series ≠ p.1.series) ∧ ∀ q ∈ extra.take p.2, q.series ≠ p.1.series)).map
    Prod.fst

theorem newSeries_eq_keep (dst extra : List MetricPoint) :
    newSeries dst extra =
      FirstOccurrence.keep MetricPoint.series (dst.map MetricPoint.series) extra := by
  rw [FirstOccurrence.keep_eq_filter_zipIdx, newSeries]
  congr 1
  refine List.filter_congr fun p hp => ?_
  simp only [List.mem_map, not_exists, not_and]

/-- For plain points the identities keep the points of new series. -/
theorem keep_identity {dst extra : List Visit} (hplain : ∀ v ∈ dst ++ extra, v.point.Plain) :
    (FirstOccurrence.keep Visit.identity (dst.map Visit.identity) extra).map Visit.point =
      newSeries (dst.map Visit.point) (extra.map Visit.point) := by
  rw [newSeries_eq_keep, FirstOccurrence.keep_map]
  congr 1
  have hmem : ∀ v ∈ extra, v.point.Plain := fun v hv => hplain v (List.mem_append_right _ hv)
  refine FirstOccurrence.keep_congr (fun v hv => ?_) fun v hv w hw =>
    metricPointIdentity_inj (hmem v hv) (hmem w hw)
  rw [List.map_map, List.mem_map, List.mem_map]
  refine exists_congr fun w => and_congr_right fun hw => ?_
  exact metricPointIdentity_inj (hplain w (List.mem_append_left _ hw)) (hmem v hv)

theorem appendMetricPoints_eq {dst extra : List Visit} (now : GoTime)
    (hplain : ∀ v ∈ dst ++ extra, v.point.Plain) :
    appendMetricPoints dst extra now =
      dst.map Visit.point ++
        (newSeries (dst.map Visit.point) (extra.map Visit.point)).map (stamped now) := by
  rw [appendMetricPoints, appendExtraPoints_eq, ← keep_identity hplain, List.map_map]
  rfl

theorem appendMetricPoints_keeps_new_series (dst extra : List Visit) (now : GoTime)
    (hplain : ∀ v ∈ dst ++ extra, v.point.Plain) :
    appendMetricPoints dst extra now =
        dst.map Visit.point ++
          (newSeries (dst.map Visit.point) (extra.map Visit.point)).map (stamped now) ∧
      (∀ v w : Visit, v.point.Plain → w.point.Plain →
        (v.identity = w.identity ↔ v.point.series = w.point.series)) ∧
      ∀ v w : Visit, v.point = w.point → v.identity = w.identity := by
  refine ⟨appendMetricPoints_eq now hplain, fun v w => metricPointIdentity_inj, fun v w h => ?_⟩
  rw [Visit.identity, Visit.identity, metricPointIdentity_eq v.perm, metricPointIdentity_eq w.perm,
    h]

def cpuPoint : MetricPoint where
  name := bytes "metric"
  value := 1
  ts := utcTime 0
  labels := some ((∅ : Std.ExtTreeMap Bytes Bytes).insert (bytes "cpu") (bytes "0"))

def aggregatePoint (ts : Time) : MetricPoint where
  name := bytes "metric"
  value := 1
  ts := utcTime ts
  labels := none

def visitOf (p : MetricPoint) : Visit := ⟨p, p.labelMap.keys, .refl _⟩

theorem aggregatePoint_plain (ts : Time) : (aggregatePoint ts).Plain := by
  refine ⟨(by decide : 0x00 ∉ bytes "metric"), fun k hk => ?_, fun k v hkv => ?_⟩
  · exact absurd hk Std.ExtTreeMap.not_mem_empty
  · rw [MetricPoint.labelMap, aggregatePoint, Option.getD_none,
      Std.ExtTreeMap.getElem?_empty] at hkv
    cases hkv

theorem cpuPoint_plain : cpuPoint.Plain := by
  have hget (k v : Bytes) (h : cpuPoint.labelMap[k]? = some v) :
      k = bytes "cpu" ∧ v = bytes "0" := by
    rw [MetricPoint.labelMap, cpuPoint, Option.getD_some, Std.ExtTreeMap.getElem?_insert] at h
    split_ifs at h with hk
    · exact ⟨(Std.LawfulEqCmp.eq_of_compare hk).symm, (Option.some.inj h).symm⟩
    · rw [Std.ExtTreeMap.getElem?_empty] at h
      cases h
  refine ⟨by decide, fun k hk => ?_, fun k v hkv => ?_⟩
  · obtain ⟨v, hv⟩ := Option.isSome_iff_exists.mp (Std.ExtTreeMap.mem_iff_isSome_getElem?.mp hk)
    rw [(hget k v hv).1]
    decide
  · rw [(hget k v hkv).2]
    decide

theorem appendMetricPoints_keeps_cpuPoint :
    appendMetricPoints [visitOf (aggregatePoint 1)] [visitOf (aggregatePoint 0), visitOf cpuPoint]
        (utcTime 1) =
      [aggregatePoint 1, { cpuPoint with ts := utcTime 1 }] := by
  refine (appendMetricPoints_keeps_new_series _ _ _ ?_).1.trans ?_
  · intro v hv
    simp only [List.cons_append, List.nil_append, List.mem_cons, List.not_mem_nil, or_false] at hv
    rcases hv with rfl | rfl | rfl
    · exact aggregatePoint_plain 1
    · exact aggregatePoint_plain 0
    · exact cpuPoint_plain
  · have hsame : (aggregatePoint 0).series = (aggregatePoint 1).series := rfl
    have hdiffer : cpuPoint.series ≠ (aggregatePoint 1).series := by decide
    have hnew : newSeries [aggregatePoint 1] [aggregatePoint 0, cpuPoint] = [cpuPoint] := by
      rw [newSeries_eq_keep]
      simp [FirstOccurrence.keep, hsame, hdiffer]
    exact congrArg (fun l => [aggregatePoint 1] ++ l.map (stamped (utcTime 1))) hnew

theorem bytes_eq_flatMap (s : String) : bytes s = s.toList.flatMap String.utf8EncodeChar := by
  rw [bytes, String.toUTF8, ← String.utf8Encode_toList, List.utf8Encode]
  simp

theorem bytes_injective : Function.Injective bytes := by
  intro s t h
  apply String.toByteArray_inj.mp
  exact ByteArray.ext (Array.toList_inj.mp h)

theorem getElem?_bytesMap (m : StringMap) (k : String) :
    ((bytesMap m).getD ∅)[bytes k]? = m[k]?.map bytes := by
  have hlist : (bytesMap m).getD ∅ =
      Std.ExtTreeMap.ofList (m.toList.map fun entry => (bytes entry.1, bytes entry.2)) := by
    unfold bytesMap
    split_ifs with h
    · rw [Std.ExtTreeMap.isEmpty_iff.mp h]
      rfl
    · rfl
  rw [hlist]
  cases hk : m[k]? with
  | none =>
    apply Std.ExtTreeMap.getElem?_ofList_of_contains_eq_false
    rw [← Bool.not_eq_true, List.contains_iff_mem, List.map_map]
    intro hmem
    obtain ⟨entry, hentry, hkey⟩ := List.mem_map.mp hmem
    rw [← bytes_injective hkey, Std.ExtTreeMap.mem_toList_iff_getElem?_eq_some.mp hentry] at hk
    cases hk
  | some v =>
    refine Std.ExtTreeMap.getElem?_ofList_of_mem Std.ReflCmp.compare_self ?_
      (List.mem_map.mpr ⟨(k, v), Std.ExtTreeMap.mem_toList_iff_getElem?_eq_some.mpr hk, rfl⟩)
    rw [List.pairwise_map]
    refine m.distinct_keys_toList.imp fun hab heq => hab ?_
    rw [bytes_injective (Std.LawfulEqCmp.eq_of_compare heq)]
    exact Std.ReflCmp.compare_self

theorem mem_bytes {c : Char} {b : UInt8} {s : String} (hc : String.utf8EncodeChar c = [b])
    (h : b ∉ bytes s) : c ∉ s.toList := by
  intro hmem
  apply h
  rw [bytes_eq_flatMap, List.mem_flatMap]
  exact ⟨c, hmem, by rw [hc]; exact List.mem_singleton_self b⟩

def attributes (m : StringMap) : List (List Char × List Char) :=
  m.toList.map fun a => (a.1.toList, a.2.toList)

theorem attributes_injective : Function.Injective attributes := by
  intro m n h
  refine Std.ExtTreeMap.toList_inj.mp (List.map_injective_iff.mpr ?_ h)
  rintro ⟨k, v⟩ ⟨k', v'⟩ h
  obtain ⟨hk, hv⟩ := Prod.mk.inj h
  exact Prod.ext (String.toList_inj.mp hk) (String.toList_inj.mp hv)

theorem toList_metricPointIdentity (p : Gaoming.MetricPoint) :
    (Gaoming.metricPointIdentity p).toList =
      Delimited.labelled '\x00' '=' p.name.toList (attributes p.labels) := by
  have hfold (l : List (String × String)) (name : String) :
      (l.foldl (fun identity a => identity ++ ("\x00" ++ a.1 ++ "=" ++ a.2)) name).toList =
        Delimited.labelled '\x00' '=' name.toList (l.map fun a => (a.1.toList, a.2.toList)) := by
    induction l generalizing name with
    | nil => simp [Delimited.labelled]
    | cons a l ih => simp [ih, Delimited.labelled]
  exact hfold _ _

theorem series_native_inj {p q : Gaoming.MetricPoint} :
    p.native.series = q.native.series ↔ p.name = q.name ∧ p.labels = q.labels := by
  constructor
  · intro h
    obtain ⟨hname, hlabels⟩ := Prod.mk.inj h
    refine ⟨bytes_injective hname, Std.ExtTreeMap.ext_getElem? fun {k} => ?_⟩
    have hk := congrArg (fun m : Std.ExtTreeMap Bytes Bytes => m[bytes k]?) hlabels
    exact Option.map_injective bytes_injective
      ((getElem?_bytesMap p.labels k).symm.trans (hk.trans (getElem?_bytesMap q.labels k)))
  · rintro ⟨hname, hlabels⟩
    simp only [MetricPoint.series, MetricPoint.labelMap, Gaoming.MetricPoint.native, hname, hlabels]

theorem readable_text {p : Gaoming.MetricPoint} (h : p.native.Plain) :
    Delimited.Readable '\x00' '=' p.name.toList (attributes p.labels) := by
  have hnative (k v : String) (hkv : (k, v) ∈ p.labels.toList) :
      p.native.labelMap[bytes k]? = some (bytes v) :=
    (getElem?_bytesMap p.labels k).trans
      (by rw [Std.ExtTreeMap.mem_toList_iff_getElem?_eq_some.mp hkv, Option.map_some])
  refine ⟨mem_bytes rfl h.name, fun a ha => ?_, fun a ha => ?_⟩
  all_goals obtain ⟨⟨k, v⟩, hkv, rfl⟩ := List.mem_map.mp ha
  · have hmem : bytes k ∈ p.native.labelMap :=
      Std.ExtTreeMap.mem_iff_isSome_getElem?.mpr (by rw [hnative k v hkv, Option.isSome_some])
    exact ⟨mem_bytes rfl (h.key _ hmem).1, mem_bytes rfl (h.key _ hmem).2⟩
  · exact mem_bytes rfl (h.value _ _ (hnative k v hkv))

theorem text_metricPointIdentity_inj {p q : Gaoming.MetricPoint} (hp : p.native.Plain)
    (hq : q.native.Plain) :
    Gaoming.metricPointIdentity p = Gaoming.metricPointIdentity q ↔
      p.native.series = q.native.series := by
  rw [series_native_inj, ← String.toList_inj, toList_metricPointIdentity,
    toList_metricPointIdentity]
  constructor
  · intro h
    obtain ⟨hname, hlabels⟩ :=
      Delimited.labelled_inj (by decide) (readable_text hp) (readable_text hq) h
    exact ⟨String.toList_inj.mp hname, attributes_injective hlabels⟩
  · rintro ⟨hname, hlabels⟩
    rw [hname, hlabels]

theorem stamped_native (now : Time) (p : Gaoming.MetricPoint) :
    stamped (utcTime now) p.native = (Gaoming.stamped now p).native := by
  unfold stamped Gaoming.stamped
  change (if p.ts.isZero then _ else _) = _
  split_ifs <;> rfl

theorem appendMetricPoints_native {dst extra : List Visit} {dst' extra' : List Gaoming.MetricPoint}
    (now : Time) (hdst : dst.map Visit.point = dst'.map Gaoming.MetricPoint.native)
    (hextra : extra.map Visit.point = extra'.map Gaoming.MetricPoint.native)
    (hplain : ∀ p ∈ dst' ++ extra', p.native.Plain) :
    appendMetricPoints dst extra (utcTime now) =
      (Gaoming.appendMetricPoints dst' extra' now).map Gaoming.MetricPoint.native := by
  have hvisits : ∀ v ∈ dst ++ extra, v.point.Plain := by
    intro v hv
    have hpoint : v.point ∈ (dst' ++ extra').map Gaoming.MetricPoint.native := by
      rw [List.map_append, ← hdst, ← hextra, ← List.map_append]
      exact List.mem_map_of_mem hv
    obtain ⟨p, hp, heq⟩ := List.mem_map.mp hpoint
    exact heq ▸ hplain p hp
  have hextras : ∀ p ∈ extra', p.native.Plain := fun p hp => hplain p (List.mem_append_right _ hp)
  have hkept : newSeries (dst'.map Gaoming.MetricPoint.native)
      (extra'.map Gaoming.MetricPoint.native) =
      (FirstOccurrence.keep Gaoming.metricPointIdentity (dst'.map Gaoming.metricPointIdentity)
        extra').map Gaoming.MetricPoint.native := by
    rw [newSeries_eq_keep, FirstOccurrence.keep_map]
    congr 1
    refine (FirstOccurrence.keep_congr (fun p hp => ?_) fun p hp q hq =>
      text_metricPointIdentity_inj (hextras p hp) (hextras q hq)).symm
    rw [List.map_map, List.mem_map, List.mem_map]
    exact exists_congr fun q => and_congr_right fun hq =>
      text_metricPointIdentity_inj (hplain q (List.mem_append_left _ hq)) (hextras p hp)
  have hstamped : Gaoming.metricPointIdentity ∘ Gaoming.stamped now =
      Gaoming.metricPointIdentity := by
    funext p
    rw [Function.comp_apply, Gaoming.stamped]
    split_ifs <;> rfl
  rw [appendMetricPoints_eq (utcTime now) hvisits, hdst, hextra, hkept, Gaoming.appendMetricPoints,
    Gaoming.appendExtraPoints_eq, FirstOccurrence.keep_map, hstamped, List.map_append,
    List.map_map, List.map_map]
  simp only [Function.comp_def, stamped_native]

end Gaoming.Native
