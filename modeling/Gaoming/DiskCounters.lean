import Gaoming.AgentSampler
import Gaoming.Delimited
import Gaoming.GroupedFold

/-!
# Device names and disk totals

The entries that the disk counters of a Linux host come with, and what
`sumStructuredDiskCounters` makes of them. The function also passes over entries that are
nil; the collector makes none, and the model has no such entries.
-/

namespace Gaoming

abbrev Digits := { text : List Char // isAllDigits text = true }

theorem Digits.all (k : Digits) : ∀ c ∈ k.1, isAsciiDigit c = true := by
  have h := k.2
  rw [isAllDigits, Bool.and_eq_true, List.all_eq_true] at h
  exact h.2

/-- The prefixes of disks that are told apart by letters. -/
inductive LetteredKind
  | sd | vd | xvd | hd

def LetteredKind.text : LetteredKind → List Char
  | .sd => ['s', 'd']
  | .vd => ['v', 'd']
  | .xvd => ['x', 'v', 'd']
  | .hd => ['h', 'd']

/-- The base names of whole disks. Of the letters only this much is used, that none is a
decimal digit. -/
inductive DiskName
  | lettered (kind : LetteredKind) (letters : { l : List Char // ∀ c ∈ l, isAsciiDigit c = false })
  | nvme (controller namespaceID : Digits)
  | mmcblk (index : Digits)

def DiskName.text : DiskName → List Char
  | .lettered kind letters => kind.text ++ letters.1
  | .nvme i j => 'n' :: 'v' :: 'm' :: 'e' :: (i.1 ++ 'n' :: j.1)
  | .mmcblk i => 'm' :: 'm' :: 'c' :: 'b' :: 'l' :: 'k' :: i.1

/-- The base name of a partition. -/
def DiskName.partition (disk : DiskName) (k : Digits) : List Char :=
  match disk with
  | .lettered _ _ => disk.text ++ k.1
  | .nvme _ _ | .mmcblk _ => disk.text ++ 'p' :: k.1

/-- The two families with a `p` before the number of the partition. -/
def Numbered (name : List Char) : Prop :=
  ['n', 'v', 'm', 'e'] <+: name ∨ ['m', 'm', 'c', 'b', 'l', 'k'] <+: name

instance (name : List Char) : Decidable (Numbered name) := inferInstanceAs (Decidable (_ ∨ _))

/-- What `normalizeDiskName` does to a base name in lower case. -/
def diskOf (name : List Char) : List Char :=
  if Numbered name then
    if (name.rdropWhile (· ≠ 'p')).dropLast ≠ [] ∧
        isAllDigits (name.rtakeWhile (· ≠ 'p')) = true then
      (name.rdropWhile (· ≠ 'p')).dropLast
    else name
  else if ['s', 'd'] <+: name ∨ ['v', 'd'] <+: name ∨ ['x', 'v', 'd'] <+: name ∨
      ['h', 'd'] <+: name then
    name.rdropWhile isAsciiDigit
  else name

theorem Numbered.append {name : List Char} (h : Numbered name) (rest : List Char) :
    Numbered (name ++ rest) :=
  h.imp (·.trans (List.prefix_append name rest)) (·.trans (List.prefix_append name rest))

theorem ne_p_of_digit {c : Char} (h : isAsciiDigit c = true) : c ≠ 'p' := by
  rintro rfl
  exact absurd h (by decide)

theorem diskOf_numbered {name : List Char} (h : Numbered name) (hp : ∀ c ∈ name, c ≠ 'p') :
    diskOf name = name := by
  have hdrop : name.rdropWhile (· ≠ 'p') = [] :=
    List.rdropWhile_eq_nil_iff.mpr fun c hc => decide_eq_true (hp c hc)
  rw [diskOf, if_pos h, hdrop, if_neg (fun hbase => hbase.1 rfl)]

theorem diskOf_numbered_partition {name : List Char} (h : Numbered name) (k : Digits) :
    diskOf (name ++ 'p' :: k.1) = name := by
  have hk : ∀ c ∈ k.1, decide (c ≠ 'p') = true := fun c hc =>
    decide_eq_true (ne_p_of_digit (k.all c hc))
  have hsplit : name ++ 'p' :: k.1 = (name ++ ['p']) ++ k.1 := by simp
  have hne : name ≠ [] := by
    rintro rfl
    rcases h with h | h <;> exact absurd (List.prefix_nil.mp h) (List.cons_ne_nil _ _)
  have hdrop : (name ++ 'p' :: k.1).rdropWhile (· ≠ 'p') = name ++ ['p'] := by
    rw [hsplit, Delimited.rdropWhile_append hk, List.rdropWhile_concat_neg _ _ _ (by decide)]
  have htake : (name ++ 'p' :: k.1).rtakeWhile (· ≠ 'p') = k.1 := by
    rw [hsplit]
    exact Delimited.rtakeWhile_append (List.rtakeWhile_concat_neg _ _ _ (by decide)) hk
  rw [diskOf, if_pos (h.append _), hdrop, htake, List.dropLast_concat, if_pos ⟨hne, k.2⟩]

theorem diskOf_lettered (kind : LetteredKind) (rest : List Char) :
    diskOf (kind.text ++ rest) = (kind.text ++ rest).rdropWhile isAsciiDigit := by
  cases kind <;> simp [diskOf, Numbered, LetteredKind.text]

theorem rdropWhile_lettered (kind : LetteredKind) {letters : List Char}
    (h : ∀ c ∈ letters, isAsciiDigit c = false) :
    (kind.text ++ letters).rdropWhile isAsciiDigit = kind.text ++ letters := by
  refine List.rdropWhile_eq_self_iff.mpr fun hne hlast => ?_
  have hmem := List.getLast_mem hne
  rcases List.mem_append.mp hmem with hmem | hmem
  · have hkind : kind.text.all (fun c => !isAsciiDigit c) = true := by cases kind <;> rfl
    have hnot := List.all_eq_true.mp hkind _ hmem
    rw [hlast] at hnot
    cases hnot
  · rw [h _ hmem] at hlast
    cases hlast

theorem numbered_nvme (i j : Digits) :
    Numbered (DiskName.nvme i j).text ∧ ∀ c ∈ (DiskName.nvme i j).text, c ≠ 'p' := by
  refine ⟨Or.inl (List.prefix_append ['n', 'v', 'm', 'e'] _), ?_⟩
  simp only [DiskName.text, List.forall_mem_cons, List.forall_mem_append]
  exact ⟨by decide, by decide, by decide, by decide, fun c hc => ne_p_of_digit (i.all c hc),
    by decide, fun c hc => ne_p_of_digit (j.all c hc)⟩

theorem numbered_mmcblk (i : Digits) :
    Numbered (DiskName.mmcblk i).text ∧ ∀ c ∈ (DiskName.mmcblk i).text, c ≠ 'p' := by
  refine ⟨Or.inr (List.prefix_append ['m', 'm', 'c', 'b', 'l', 'k'] _), ?_⟩
  simp only [DiskName.text, List.forall_mem_cons]
  exact ⟨by decide, by decide, by decide, by decide, by decide, by decide,
    fun c hc => ne_p_of_digit (i.all c hc)⟩

theorem diskOf_text (disk : DiskName) : diskOf disk.text = disk.text := by
  cases disk with
  | lettered kind letters =>
    exact (diskOf_lettered kind letters.1).trans (rdropWhile_lettered kind letters.2)
  | nvme i j => exact diskOf_numbered (numbered_nvme i j).1 (numbered_nvme i j).2
  | mmcblk i => exact diskOf_numbered (numbered_mmcblk i).1 (numbered_mmcblk i).2

theorem diskOf_partition (disk : DiskName) (k : Digits) :
    diskOf (disk.partition k) = disk.text := by
  cases disk with
  | lettered kind letters =>
    rw [DiskName.partition, DiskName.text, List.append_assoc, diskOf_lettered, ← List.append_assoc,
      Delimited.rdropWhile_append k.all, rdropWhile_lettered kind letters.2]
  | nvme i j => exact diskOf_numbered_partition (numbered_nvme i j).1 k
  | mmcblk i => exact diskOf_numbered_partition (numbered_mmcblk i).1 k

-- Spellings of a base name: any letter case, with or without a directory.

section Entries
variable {P : Platform} {device : String} {name : List Char}

def Spells (P : Platform) (device : String) (name : List Char) : Prop :=
  ∃ dir base, device.toList = dir ++ base ∧ (dir = [] ∨ dir.getLast? = some '/') ∧
    base.map P.letters.toLower = name ∧ ∀ c ∈ base, c ≠ '/' ∧ isSpace c = false

theorem basePath_append {dir base : List Char} (hdevice : device.toList = dir ++ base)
    (hdir : dir = [] ∨ dir.getLast? = some '/') (hne : base ≠ []) (hbase : ∀ c ∈ base, c ≠ '/') :
    basePath device = String.ofList base := by
  have hdevice' : device ≠ "" := by
    rintro rfl
    exact hne (List.append_eq_nil_iff.mp hdevice.symm).2
  have hkeep : (dir ++ base).rdropWhile (· = '/') = dir ++ base := by
    refine List.rdropWhile_eq_self_iff.mpr fun hne' hlast => ?_
    rw [List.getLast_append_of_right_ne_nil _ _ hne] at hlast
    exact hbase _ (List.getLast_mem hne) (of_decide_eq_true hlast)
  have hnone : dir.rtakeWhile (· ≠ '/') = [] := by
    rcases hdir with rfl | hlast
    · rfl
    · rw [← List.dropLast_append_getLast? _ hlast]
      exact List.rtakeWhile_concat_neg _ _ _ (by decide)
  have htake : (dir ++ base).rtakeWhile (· ≠ '/') = base :=
    Delimited.rtakeWhile_append hnone fun c hc => decide_eq_true (hbase c hc)
  have hfull : (dir ++ base).isEmpty = false := by simp [hne]
  rw [basePath, if_neg hdevice', hdevice, hkeep]
  dsimp only
  rw [hfull, htake]
  rfl

theorem trimSpace_of_forall {base : List Char} (h : ∀ c ∈ base, isSpace c = false) :
    trimSpace (String.ofList base) = String.ofList base := by
  have hright : base.rdropWhile isSpace = base :=
    List.rdropWhile_eq_self_iff.mpr fun hne hlast => by
      rw [h _ (List.getLast_mem hne)] at hlast
      cases hlast
  have hleft : base.dropWhile isSpace = base :=
    List.dropWhile_eq_self_iff.mpr fun hne hhead => by
      rw [h _ (List.getElem_mem hne)] at hhead
      cases hhead
  rw [trimSpace, String.toList_ofList, hright, hleft]

theorem normalizeDiskName_of_spells (hlinux : P.linux = true) (hne : name ≠ [])
    (h : Spells P device name) : normalizeDiskName P device = String.ofList (diskOf name) := by
  obtain ⟨dir, base, hdevice, hdir, hlower, hbase⟩ := h
  have hbase' : base ≠ [] := by
    rintro rfl
    exact hne hlower.symm
  rw [normalizeDiskName, basePath_append hdevice hdir hbase' fun c hc => (hbase c hc).1,
    trimSpace_of_forall fun c hc => (hbase c hc).2, String.toList_ofList, hlower]
  simp only [hlinux, Bool.not_true, Bool.false_eq_true, if_false, Bool.or_eq_true,
    String.startsWith_string_iff, String.toList_ofList, diskOf]
  rw [apply_ite String.ofList, apply_ite String.ofList, apply_ite String.ofList]
  refine if_congr Iff.rfl (if_congr ?_ rfl rfl) (if_congr ?_ rfl rfl)
  · simp
  · rw [or_assoc, or_assoc]
    exact Iff.rfl

end Entries

/-- The devices that are left out. -/
inductive SkippedKind
  | loop | ram | fd

def SkippedKind.text : SkippedKind → List Char
  | .loop => ['l', 'o', 'o', 'p']
  | .ram => ['r', 'a', 'm']
  | .fd => ['f', 'd']

theorem diskOf_skipped (kind : SkippedKind) (rest : List Char) :
    diskOf (kind.text ++ rest) = kind.text ++ rest := by
  cases kind <;> simp [diskOf, Numbered, SkippedKind.text]

theorem skipDiskCounter_iff (name : List Char) :
    skipDiskCounter (String.ofList name) = true ↔
      name = [] ∨ ∃ kind : SkippedKind, kind.text <+: name := by
  have hempty : String.ofList name = "" ↔ name = [] := by
    rw [← String.toList_inj, String.toList_ofList]
    rfl
  simp only [skipDiskCounter, Bool.or_eq_true, decide_eq_true_eq, hempty,
    String.startsWith_string_iff, String.toList_ofList, or_assoc]
  refine or_congr Iff.rfl ⟨?_, ?_⟩
  · rintro (h | h | h)
    · exact ⟨.loop, h⟩
    · exact ⟨.ram, h⟩
    · exact ⟨.fd, h⟩
  · rintro ⟨kind, h⟩
    cases kind with
    | loop => exact Or.inl h
    | ram => exact Or.inr (Or.inl h)
    | fd => exact Or.inr (Or.inr h)

theorem not_skip_text (disk : DiskName) : skipDiskCounter (String.ofList disk.text) = false := by
  rw [← Bool.not_eq_true, skipDiskCounter_iff]
  rintro (h | ⟨kind, h⟩)
  · cases disk with
    | lettered kind letters => cases kind <;> cases h
    | nvme i j => cases h
    | mmcblk i => cases h
  · cases disk with
    | lettered letteredKind letters =>
      cases kind <;> cases letteredKind <;>
        simp [SkippedKind.text, DiskName.text, LetteredKind.text] at h
    | nvme i j => cases kind <;> simp [SkippedKind.text, DiskName.text] at h
    | mmcblk i => cases kind <;> simp [SkippedKind.text, DiskName.text] at h

def DiskIOMetrics.totals (stat : DiskIOMetrics) : DiskTotals where
  readBytes := stat.readBytesTotal
  writeBytes := stat.writeBytesTotal
  readOps := stat.readsTotal
  writeOps := stat.writesTotal

/-- No counter exceeds the other's. -/
structure DiskTotals.Within (t u : DiskTotals) : Prop where
  readBytes : t.readBytes ≤ u.readBytes
  writeBytes : t.writeBytes ≤ u.writeBytes
  readOps : t.readOps ≤ u.readOps
  writeOps : t.writeOps ≤ u.writeOps

theorem DiskTotals.Within.zero (u : DiskTotals) : DiskTotals.Within {} u :=
  ⟨UInt64.zero_le, UInt64.zero_le, UInt64.zero_le, UInt64.zero_le⟩

theorem raised_le {a b c : UInt64} (ha : a ≤ c) (hb : b ≤ c) : (if a < b then b else a) ≤ c := by
  split_ifs
  · exact hb
  · exact ha

theorem DiskTotals.Within.raise {t u : DiskTotals} {stat : DiskIOMetrics} (ht : t.Within u)
    (hstat : stat.totals.Within u) : (t.raise stat).Within u :=
  ⟨raised_le ht.readBytes hstat.readBytes, raised_le ht.writeBytes hstat.writeBytes,
    raised_le ht.readOps hstat.readOps, raised_le ht.writeOps hstat.writeOps⟩

theorem DiskTotals.Within.antisymm {t u : DiskTotals} (htu : t.Within u) (hut : u.Within t) :
    t = u := by
  cases t
  cases u
  congr 1
  · exact UInt64.le_antisymm htu.readBytes hut.readBytes
  · exact UInt64.le_antisymm htu.writeBytes hut.writeBytes
  · exact UInt64.le_antisymm htu.readOps hut.readOps
  · exact UInt64.le_antisymm htu.writeOps hut.writeOps

theorem le_raised {a b : UInt64} : a ≤ (if a < b then b else a) ∧ b ≤ if a < b then b else a := by
  split_ifs with h
  · exact ⟨UInt64.le_of_lt h, UInt64.le_refl b⟩
  · exact ⟨UInt64.le_refl a, UInt64.not_lt.mp h⟩

theorem DiskTotals.within_raise (t : DiskTotals) (stat : DiskIOMetrics) : t.Within (t.raise stat) :=
  ⟨le_raised.1, le_raised.1, le_raised.1, le_raised.1⟩

theorem DiskIOMetrics.within_raise (stat : DiskIOMetrics) (t : DiskTotals) :
    stat.totals.Within (t.raise stat) :=
  ⟨le_raised.2, le_raised.2, le_raised.2, le_raised.2⟩

theorem DiskTotals.Within.trans {t u v : DiskTotals} (htu : t.Within u) (huv : u.Within v) :
    t.Within v :=
  ⟨UInt64.le_trans htu.readBytes huv.readBytes, UInt64.le_trans htu.writeBytes huv.writeBytes,
    UInt64.le_trans htu.readOps huv.readOps, UInt64.le_trans htu.writeOps huv.writeOps⟩

/-- The maximum of entries within a bound, of which one is the bound. -/
theorem foldl_raise {stats : List DiskIOMetrics} {t u : DiskTotals} (ht : t.Within u)
    (hwithin : ∀ stat ∈ stats, stat.totals.Within u)
    (hwhole : u.Within t ∨ ∃ stat ∈ stats, stat.totals = u) :
    stats.foldl DiskTotals.raise t = u := by
  induction stats generalizing t with
  | nil =>
    rcases hwhole with hwhole | ⟨stat, hmem, -⟩
    · exact ht.antisymm hwhole
    · cases hmem
  | cons stat stats ih =>
    refine ih (ht.raise (hwithin stat List.mem_cons_self))
      (fun other hother => hwithin other (List.mem_cons_of_mem _ hother)) ?_
    rcases hwhole with hwhole | ⟨whole, hmem, heq⟩
    · exact Or.inl (hwhole.trans (t.within_raise stat))
    · rcases List.mem_cons.mp hmem with rfl | hmem
      · exact Or.inl (heq ▸ whole.within_raise t)
      · exact Or.inr ⟨whole, hmem, heq⟩

structure Disk where
  name : DiskName
  counters : DiskTotals

/-- An entry of the disk itself. -/
def Disk.Whole (P : Platform) (disk : Disk) (stat : DiskIOMetrics) : Prop :=
  Spells P stat.device disk.name.text ∧ stat.totals = disk.counters

/-- An entry of a partition, with counters within those of the disk. -/
def Disk.Partition (P : Platform) (disk : Disk) (stat : DiskIOMetrics) : Prop :=
  ∃ k, Spells P stat.device (disk.name.partition k) ∧ stat.totals.Within disk.counters

def Skipped (P : Platform) (stat : DiskIOMetrics) : Prop :=
  ∃ (kind : SkippedKind) (rest : List Char), Spells P stat.device (kind.text ++ rest)

/-- A list of entries for the disks and their partitions, among others that are left out. -/
structure Describes (P : Platform) (disks : List Disk) (stats : List DiskIOMetrics) : Prop where
  distinct : (disks.map fun disk => disk.name.text).Nodup
  entry : ∀ stat ∈ stats, Skipped P stat ∨ ∃ disk ∈ disks, disk.Whole P stat ∨ disk.Partition P stat
  whole : ∀ disk ∈ disks, ∃ stat ∈ stats, disk.Whole P stat

section Totals
variable {P : Platform} {disks : List Disk} {stats : List DiskIOMetrics} {disk : Disk}
  {stat : DiskIOMetrics}

theorem text_ne_nil (name : DiskName) : name.text ≠ [] := by
  intro h
  have hskip := not_skip_text name
  rw [h] at hskip
  cases hskip

theorem normalizeDiskName_whole (hlinux : P.linux = true) (h : disk.Whole P stat) :
    normalizeDiskName P stat.device = String.ofList disk.name.text := by
  rw [normalizeDiskName_of_spells hlinux (text_ne_nil disk.name) h.1, diskOf_text]

theorem normalizeDiskName_partition (hlinux : P.linux = true) (h : disk.Partition P stat) :
    normalizeDiskName P stat.device = String.ofList disk.name.text ∧
      stat.totals.Within disk.counters := by
  obtain ⟨k, hspells, hwithin⟩ := h
  have hne : disk.name.partition k ≠ [] := by
    intro hnil
    have htext := diskOf_partition disk.name k
    rw [hnil] at htext
    exact text_ne_nil disk.name htext.symm
  rw [normalizeDiskName_of_spells hlinux hne hspells, diskOf_partition]
  exact ⟨rfl, hwithin⟩

theorem skipDiskCounter_skipped (hlinux : P.linux = true) (h : Skipped P stat) :
    skipDiskCounter (normalizeDiskName P stat.device) = true := by
  obtain ⟨kind, rest, hspells⟩ := h
  have hne : kind.text ++ rest ≠ [] := by cases kind <;> exact List.cons_ne_nil _ _
  rw [normalizeDiskName_of_spells hlinux hne hspells, diskOf_skipped, skipDiskCounter_iff]
  exact Or.inr ⟨kind, List.prefix_append _ _⟩

/-- The entries that are counted belong to a disk. -/
theorem Describes.counted (hlinux : P.linux = true) (h : Describes P disks stats)
    (hstat : stat ∈ stats) (hskip : skipDiskCounter (normalizeDiskName P stat.device) = false) :
    ∃ disk ∈ disks, normalizeDiskName P stat.device = String.ofList disk.name.text ∧
      stat.totals.Within disk.counters := by
  rcases h.entry stat hstat with hskipped | ⟨disk, hdisk, hwhole | hpartition⟩
  · rw [skipDiskCounter_skipped hlinux hskipped] at hskip
    cases hskip
  · refine ⟨disk, hdisk, normalizeDiskName_whole hlinux hwhole, ?_⟩
    rw [hwhole.2]
    exact ⟨UInt64.le_refl _, UInt64.le_refl _, UInt64.le_refl _, UInt64.le_refl _⟩
  · exact ⟨disk, hdisk, normalizeDiskName_partition hlinux hpartition⟩

def countedStats (P : Platform) (stats : List DiskIOMetrics) : List DiskIOMetrics :=
  stats.filter fun stat => !skipDiskCounter (normalizeDiskName P stat.device)

def byDevice (P : Platform) (stats : List DiskIOMetrics) : Std.ExtTreeMap String DiskTotals :=
  GroupedFold.collect (fun stat => normalizeDiskName P stat.device) DiskTotals.raise {}
    (countedStats P stats)

theorem mem_group {k : String} :
    stat ∈ GroupedFold.group (fun stat => normalizeDiskName P stat.device) k
      (countedStats P stats) ↔
      stat ∈ stats ∧ skipDiskCounter (normalizeDiskName P stat.device) = false ∧
        normalizeDiskName P stat.device = k := by
  simp only [GroupedFold.group, countedStats, List.mem_filter, Bool.not_eq_true',
    decide_eq_true_eq, and_assoc]

theorem Describes.byDevice_text (hlinux : P.linux = true) (h : Describes P disks stats)
    (hdisk : disk ∈ disks) :
    (byDevice P stats)[String.ofList disk.name.text]? = some disk.counters := by
  obtain ⟨whole, hmem, hwhole⟩ := h.whole disk hdisk
  have hname := normalizeDiskName_whole hlinux hwhole
  have hgroup := mem_group.mpr ⟨hmem, by rw [hname]; exact not_skip_text disk.name, hname⟩
  rw [byDevice, GroupedFold.getElem?_collect, if_neg (List.ne_nil_of_mem hgroup)]
  refine congrArg some (foldl_raise (.zero _) (fun stat hstat => ?_)
    (Or.inr ⟨whole, hgroup, hwhole.2⟩))
  obtain ⟨hstat, hskip, hkey⟩ := mem_group.mp hstat
  obtain ⟨other, hother, hotherName, hwithin⟩ := h.counted hlinux hstat hskip
  have htext : other.name.text = disk.name.text :=
    String.ofList_injective (hotherName.symm.trans hkey)
  rwa [← List.inj_on_of_nodup_map h.distinct hother hdisk htext]

theorem Describes.byDevice_iff (hlinux : P.linux = true) (h : Describes P disks stats) (k : String)
    (v : DiskTotals) :
    (byDevice P stats)[k]? = some v ↔
      (k, v) ∈ disks.map fun disk => (String.ofList disk.name.text, disk.counters) := by
  constructor
  · intro hk
    have hsome : GroupedFold.group (fun stat => normalizeDiskName P stat.device) k
        (countedStats P stats) ≠ [] := by
      intro hnil
      rw [byDevice, GroupedFold.getElem?_collect, if_pos hnil] at hk
      cases hk
    obtain ⟨stat, hstat⟩ := List.exists_mem_of_ne_nil _ hsome
    obtain ⟨hstat, hskip, hkey⟩ := mem_group.mp hstat
    obtain ⟨disk, hdisk, hname, -⟩ := h.counted hlinux hstat hskip
    rw [← hkey, hname, h.byDevice_text hlinux hdisk] at hk
    rw [← hkey, hname, ← Option.some.inj hk]
    exact List.mem_map_of_mem hdisk
  · intro hmem
    obtain ⟨disk, hdisk, heq⟩ := List.mem_map.mp hmem
    obtain ⟨rfl, rfl⟩ := Prod.mk.inj heq
    exact h.byDevice_text hlinux hdisk

theorem sumStructuredDiskCounters_eq (P : Platform) (stats : List DiskIOMetrics) :
    sumStructuredDiskCounters P stats =
      (byDevice P stats).toList.foldl (fun sum (_, t) => {
        readBytes := sum.readBytes + t.readBytes, writeBytes := sum.writeBytes + t.writeBytes
        readOps := sum.readOps + t.readOps, writeOps := sum.writeOps + t.writeOps }) {} := by
  rw [byDevice, GroupedFold.collect, countedStats, List.foldl_filter, sumStructuredDiskCounters]
  congr 3
  funext m stat
  dsimp only
  cases skipDiskCounter (normalizeDiskName P stat.device) <;> rfl

theorem foldl_totals (l : List (String × DiskTotals)) (sum : DiskTotals) :
    l.foldl (fun sum (_, t) => {
        readBytes := sum.readBytes + t.readBytes, writeBytes := sum.writeBytes + t.writeBytes
        readOps := sum.readOps + t.readOps, writeOps := sum.writeOps + t.writeOps }) sum =
      { readBytes := sum.readBytes + (l.map (·.2.readBytes)).sum
        writeBytes := sum.writeBytes + (l.map (·.2.writeBytes)).sum
        readOps := sum.readOps + (l.map (·.2.readOps)).sum
        writeOps := sum.writeOps + (l.map (·.2.writeOps)).sum } := by
  induction l generalizing sum with
  | nil => simp
  | cons entry l ih => simp [ih, add_assoc]

theorem toNat_sum (l : List UInt64) : l.sum.toNat = (l.map UInt64.toNat).sum % 2 ^ 64 := by
  induction l with
  | nil => rfl
  | cons n l ih =>
    rw [List.sum_cons, UInt64.toNat_add, ih, List.map_cons, List.sum_cons, Nat.add_mod_mod]

theorem Describes.toList_perm (hlinux : P.linux = true) (h : Describes P disks stats) :
    (byDevice P stats).toList.Perm
      (disks.map fun disk => (String.ofList disk.name.text, disk.counters)) := by
  refine GroupedFold.toList_perm ?_ (h.byDevice_iff hlinux)
  refine List.Nodup.of_map (fun entry => entry.1.toList) ?_
  rw [List.map_map]
  simpa [Function.comp_def] using h.distinct

/-- One counter, added up over the map and over the disks. -/
theorem Describes.sum_eq (hlinux : P.linux = true) (h : Describes P disks stats)
    (f : DiskTotals → UInt64) :
    (0 + ((byDevice P stats).toList.map fun entry => f entry.2).sum).toNat =
      (disks.map fun disk => (f disk.counters).toNat).sum % 2 ^ 64 := by
  rw [zero_add, ((h.toList_perm hlinux).map fun entry => f entry.2).sum_eq, toNat_sum, List.map_map,
    List.map_map]
  rfl

end Totals

theorem sumStructuredDiskCounters_whole_disks (P : Platform) (hlinux : P.linux = true)
    (disks : List Disk) (stats : List DiskIOMetrics) (h : Describes P disks stats) :
    (sumStructuredDiskCounters P stats).readBytes.toNat =
        (disks.map (·.counters.readBytes.toNat)).sum % 2 ^ 64 ∧
      (sumStructuredDiskCounters P stats).writeBytes.toNat =
        (disks.map (·.counters.writeBytes.toNat)).sum % 2 ^ 64 ∧
      (sumStructuredDiskCounters P stats).readOps.toNat =
        (disks.map (·.counters.readOps.toNat)).sum % 2 ^ 64 ∧
      (sumStructuredDiskCounters P stats).writeOps.toNat =
        (disks.map (·.counters.writeOps.toNat)).sum % 2 ^ 64 := by
  rw [sumStructuredDiskCounters_eq, foldl_totals]
  exact ⟨h.sum_eq hlinux (·.readBytes), h.sum_eq hlinux (·.writeBytes),
    h.sum_eq hlinux (·.readOps), h.sum_eq hlinux (·.writeOps)⟩

def linuxHost : Platform where
  letters := ⟨Char.isUpper, Char.toLower⟩
  linux := true
  rootPath := "/"

/-- A spelling can be checked. -/
theorem spells_of_checks {P : Platform} {dir base name : List Char}
    (hdir : dir = [] ∨ dir.getLast? = some '/') (hname : base.map P.letters.toLower = name)
    (hbase : base.all (fun c => decide (c ≠ '/') && !isSpace c) = true) :
    Spells P (String.ofList (dir ++ base)) name := by
  refine ⟨dir, base, String.toList_ofList, hdir, hname, fun c hc => ?_⟩
  have hc := List.all_eq_true.mp hbase c hc
  rw [Bool.and_eq_true, decide_eq_true_eq, Bool.not_eq_true'] at hc
  exact hc

def diskA : Disk where
  name := .lettered .sd ⟨['a'], fun c hc => by rw [List.mem_singleton.mp hc]; rfl⟩
  counters := ⟨100, 50, 10, 5⟩

/-- A disk whose counter of bytes is full. -/
def diskN : Disk where
  name := .nvme ⟨['0'], rfl⟩ ⟨['1'], rfl⟩
  counters := ⟨18446744073709551615, 9223372036854775807, 30, 15⟩

/-- A device under a name, with the counters of `iostat`. -/
def device (dir base : List Char) (ops bytes : UInt64) : DiskIOMetrics :=
  ⟨String.ofList (dir ++ base), ops, ops / 2, bytes, bytes / 2⟩

def twoDisks : List DiskIOMetrics :=
  [device "/dev/".toList "SDA1".toList 8 90, device [] "Loop0".toList 40 400,
    device [] "nvme0n1".toList 30 18446744073709551615, device [] "sda".toList 10 100,
    device "/dev/".toList "NVME0n1p2".toList 29 18446744073709551614]

theorem describes_twoDisks : Describes linuxHost [diskA, diskN] twoDisks := by
  have hwholeA : diskA.Whole linuxHost (device [] "sda".toList 10 100) :=
    ⟨spells_of_checks (by decide) (by decide) (by decide), rfl⟩
  have hwholeN : diskN.Whole linuxHost (device [] "nvme0n1".toList 30 18446744073709551615) :=
    ⟨spells_of_checks (by decide) (by decide) (by decide), rfl⟩
  have hpartitionA : diskA.Partition linuxHost (device "/dev/".toList "SDA1".toList 8 90) :=
    ⟨⟨['1'], rfl⟩, spells_of_checks (by decide) (by decide) (by decide),
      ⟨by decide, by decide, by decide, by decide⟩⟩
  have hpartitionN : diskN.Partition linuxHost
      (device "/dev/".toList "NVME0n1p2".toList 29 18446744073709551614) :=
    ⟨⟨['2'], rfl⟩, spells_of_checks (by decide) (by decide) (by decide),
      ⟨by decide, by decide, by decide, by decide⟩⟩
  have hloop : Skipped linuxHost (device [] "Loop0".toList 40 400) :=
    ⟨.loop, ['0'], spells_of_checks (by decide) (by decide) (by decide)⟩
  refine ⟨by decide, ?_, ?_⟩
  · simp only [twoDisks, List.forall_mem_cons, List.not_mem_nil, false_imp_iff, implies_true,
      and_true]
    exact ⟨.inr ⟨diskA, by simp, .inr hpartitionA⟩, .inl hloop, .inr ⟨diskN, by simp, .inl hwholeN⟩,
      .inr ⟨diskA, by simp, .inl hwholeA⟩, .inr ⟨diskN, by simp, .inr hpartitionN⟩⟩
  · simp only [List.forall_mem_cons, List.not_mem_nil, false_imp_iff, implies_true, and_true]
    exact ⟨⟨_, by simp [twoDisks], hwholeA⟩, ⟨_, by simp [twoDisks], hwholeN⟩⟩

theorem sumStructuredDiskCounters_twoDisks :
    (sumStructuredDiskCounters linuxHost twoDisks).readBytes.toNat = 99 ∧
      (sumStructuredDiskCounters linuxHost twoDisks).readOps.toNat = 40 := by
  obtain ⟨hread, -, hops, -⟩ :=
    sumStructuredDiskCounters_whole_disks linuxHost rfl [diskA, diskN] twoDisks describes_twoDisks
  rw [hread, hops]
  decide

end Gaoming
