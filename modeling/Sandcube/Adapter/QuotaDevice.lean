import Sandcube.Adapter.World
import Sandcube.Path.Mounts
import Sandcube.Path.Relative

/-!
# The device of a quota

`quotaDevice` of `quota.go` goes through the mount table for the entry with the longest mountpoint
that is the path or lies above it, and takes its source as the device that the quota calls are for.
The tests are on the texts: for clean paths they compare components (`covers_iff`), and the longer
of two texts is the deeper mountpoint (`length_lt_iff`).

Entries that are mounted over one another have one mountpoint.  The loop keeps the first of them,
path lookup ends in the last (`mountOf_eq_head`, `lookedUp_eq_getLast`).
-/

namespace Sandcube.Adapter.MountTable

open Sandcube.Path (slash dot text dirs rooted CleanPath Clean clean_dirs resolveMounts)

/-! ### The mount table -/

/-- An entry of `/proc/self/mountinfo`. -/
structure MountInfo where
  mountpoint : Bytes
  source : Bytes
  options : Bytes
  vfsOptions : Bytes
  deriving DecidableEq

/-- The mountpoint is the path or stands in front of it. -/
def covers (path : Bytes) (entry : MountInfo) : Bool :=
  path = entry.mountpoint ∨ entry.mountpoint.rdropWhile (· = slash) ++ [slash] <+: path

/-- One entry of the loop of `quotaDevice`. -/
def better (path : Bytes) (best : Option MountInfo) (entry : MountInfo) : Option MountInfo :=
  if covers path entry then
    match best with
    | none => some entry
    | some b => if b.mountpoint.length < entry.mountpoint.length then some entry else some b
  else best

/-- The loop of `quotaDevice`. -/
def mountOf (entries : List MountInfo) (path : Bytes) : Option MountInfo :=
  entries.foldl (better path) none

/-- `XFS_SUPER_MAGIC` -/
def xfsSuperMagic : ℕ := 0x58465342

/-- Project quotas are among the options. -/
def projectQuota (entry : MountInfo) : Bool :=
  let opts := text "," ++ entry.vfsOptions ++ text "," ++ entry.options ++ text ","
  text ",prjquota," <:+: opts ∨ text ",pquota," <:+: opts

/-- What `quotaDevice` makes of the entry. -/
def deviceOf : Option MountInfo → Except Err Bytes
  | none => .error (.other "snapshot mount not found")
  | some best =>
    if projectQuota best then .ok best.source
    else .error (.other "XFS project quota enforcement is not enabled")

/-- `quotaDevice`, with the answers of `Statfs` and `GetMounts`. -/
def quotaDevice (statfs : Except Err ℕ) (getMounts : Except Err (List MountInfo)) (path : Bytes) :
    Except Err Bytes :=
  statfs.bind fun type =>
    if type ≠ xfsSuperMagic then
      .error (.other "disk quota requires an XFS snapshotter mount with prjquota")
    else getMounts.bind fun entries => deviceOf (mountOf entries path)

/-! ### Path lookup -/

/-- The entry that path lookup ends in when the entries were mounted in this order. -/
def lookedUp (entries : List MountInfo) (path : Bytes) : Option MountInfo :=
  (resolveMounts (entries.map (dirs ·.mountpoint)) (dirs path)).mount.bind (entries[·]?)

/-- No entry is mounted above the mountpoint of an entry before it. -/
def InOrder (entries : List MountInfo) : Prop :=
  entries.Pairwise fun earlier later =>
    dirs later.mountpoint <+: dirs earlier.mountpoint →
      dirs later.mountpoint = dirs earlier.mountpoint

instance (entries : List MountInfo) : Decidable (InOrder entries) := by
  unfold InOrder; infer_instance

/-- The mountpoint is the path or an ancestor of it, and no other such mountpoint is deeper. -/
def Deepest (entries : List MountInfo) (path : Bytes) (entry : MountInfo) : Prop :=
  dirs entry.mountpoint <+: dirs path ∧
    ∀ other ∈ entries, dirs other.mountpoint <+: dirs path →
      (dirs other.mountpoint).length ≤ (dirs entry.mountpoint).length

instance (entries : List MountInfo) (path : Bytes) (entry : MountInfo) :
    Decidable (Deepest entries path entry) := by
  unfold Deepest; infer_instance

/-- The entries stacked on the deepest mountpoint, in mount order. -/
def stacked (entries : List MountInfo) (path : Bytes) : List MountInfo :=
  entries.filter (Deepest entries path)

/-! ### Texts and components -/

section

variable {path : Bytes} {entries : List MountInfo}

theorem covers_iff {entry : MountInfo} (hpath : CleanPath path)
    (hentry : CleanPath entry.mountpoint) :
    covers path entry = true ↔ dirs entry.mountpoint <+: dirs path := by
  rw [covers, decide_eq_true_eq]
  by_cases hroot : dirs entry.mountpoint = []
  · have htext : entry.mountpoint = [slash] := by
      rw [← hentry, hroot]
      rfl
    have hfirst : [slash] <+: path := by
      rw [← hpath]
      exact ⟨_, rfl⟩
    rw [hroot, htext]
    exact iff_of_true (.inr hfirst) List.nil_prefix
  · have htrim : entry.mountpoint.rdropWhile (· = slash) = entry.mountpoint := by
      rw [List.rdropWhile_eq_self_iff]
      intro hne hlast
      have hends := Path.getLast?_rooted (clean_dirs entry.mountpoint) hroot
      rw [hentry, List.getLast?_eq_getLast_of_ne_nil hne] at hends
      exact hends (congrArg some (of_decide_eq_true hlast))
    have hbelow := Path.rooted_append_isPrefix_iff (clean_dirs entry.mountpoint)
      (clean_dirs path) hroot
    rw [hentry, hpath] at hbelow
    rw [htrim, hbelow]
    constructor
    · rintro (rfl | ⟨hinit, -⟩)
      · exact List.prefix_rfl
      · exact hinit
    · intro hinit
      by_cases he : dirs entry.mountpoint = dirs path
      · exact .inl (by rw [← hpath, ← he, hentry])
      · exact .inr ⟨hinit, he⟩

/-- Of two mountpoints above one path the longer text is the deeper one. -/
theorem length_lt_iff {a b : MountInfo} (ha : CleanPath a.mountpoint)
    (hb : CleanPath b.mountpoint) (hap : dirs a.mountpoint <+: dirs path)
    (hbp : dirs b.mountpoint <+: dirs path) :
    a.mountpoint.length < b.mountpoint.length ↔
      (dirs a.mountpoint).length < (dirs b.mountpoint).length := by
  have hmono : ∀ {x y : MountInfo}, CleanPath x.mountpoint → CleanPath y.mountpoint →
      dirs x.mountpoint <+: dirs y.mountpoint → dirs x.mountpoint ≠ dirs y.mountpoint →
      x.mountpoint.length < y.mountpoint.length := by
    intro x y hx hy hinit hne
    have hlt := Path.length_rooted_lt (clean_dirs y.mountpoint) hinit hne
    rwa [hx, hy] at hlt
  constructor
  · intro hlt
    by_contra hle
    have hinit := List.prefix_of_prefix_length_le hbp hap (Nat.le_of_not_lt hle)
    by_cases he : dirs b.mountpoint = dirs a.mountpoint
    · rw [← ha, ← hb, he] at hlt
      exact Nat.lt_irrefl _ hlt
    · have := hmono hb ha hinit he
      omega
  · intro hlt
    refine hmono ha hb (List.prefix_of_prefix_length_le hap hbp hlt.le) fun he => ?_
    rw [he] at hlt
    exact Nat.lt_irrefl _ hlt

theorem stacked_split {before after : List MountInfo} {e : MountInfo}
    (hsplit : entries = before ++ e :: after) (he : Deepest entries path e) :
    stacked entries path =
      before.filter (Deepest entries path) ++ e :: after.filter (Deepest entries path) := by
  -- The table in the test stays as it is.
  have hfilter : ∀ test : MountInfo → Bool, test e = true →
      entries.filter test = before.filter test ++ e :: after.filter test := by
    intro test htest
    rw [hsplit, List.filter_append, List.filter_cons_of_pos htest]
  exact hfilter _ (decide_eq_true he)

/-! ### The loop -/

/-- What the loop has found: the first of the longest mountpoints that cover the path. -/
inductive Picked (path : Bytes) (entries : List MountInfo) : Option MountInfo → Prop
  | none (uncovered : ∀ e ∈ entries, covers path e = false) : Picked path entries none
  | some (before : List MountInfo) (b : MountInfo) (after : List MountInfo)
      (split : entries = before ++ b :: after) (covered : covers path b = true)
      (longer : ∀ e ∈ before, covers path e = true → e.mountpoint.length < b.mountpoint.length)
      (longest : ∀ e ∈ after, covers path e = true → e.mountpoint.length ≤ b.mountpoint.length) :
      Picked path entries (some b)

theorem Picked.better {best : Option MountInfo} (h : Picked path entries best)
    (entry : MountInfo) : Picked path (entries ++ [entry]) (better path best entry) := by
  unfold MountTable.better
  cases h with
  | none uncovered =>
    split_ifs with hcovers
    · refine .some entries entry [] rfl hcovers (fun e he hcovered => ?_) (by simp)
      rw [uncovered e he] at hcovered
      cases hcovered
    · refine .none fun e he => ?_
      rcases List.mem_append.mp he with he | he
      · exact uncovered e he
      · rw [List.mem_singleton.mp he]
        exact Bool.not_eq_true _ ▸ hcovers
  | some before b after split covered longer longest =>
    subst split
    dsimp only
    split_ifs with hcovers hlonger
    · refine .some _ entry [] rfl hcovers (fun e he hcovered => ?_) (by simp)
      rcases List.mem_append.mp he with he | he
      · exact (longer e he hcovered).trans hlonger
      · rcases List.mem_cons.mp he with rfl | he
        · exact hlonger
        · exact (longest e he hcovered).trans_lt hlonger
    · refine .some before b (after ++ [entry]) (by simp) covered longer fun e he hcovered => ?_
      rcases List.mem_append.mp he with he | he
      · exact longest e he hcovered
      · rw [List.mem_singleton.mp he]
        exact Nat.le_of_not_lt hlonger
    · refine .some before b (after ++ [entry]) (by simp) covered longer fun e he hcovered => ?_
      rcases List.mem_append.mp he with he | he
      · exact longest e he hcovered
      · rw [List.mem_singleton.mp he] at hcovered
        exact absurd hcovered hcovers

theorem picked_mountOf (entries : List MountInfo) (path : Bytes) :
    Picked path entries (mountOf entries path) := by
  induction entries using List.reverseRecOn with
  | nil => exact .none (by simp)
  | append_singleton entries entry ih =>
    rw [mountOf, List.foldl_append]
    exact ih.better entry

/-- The loop keeps the first of the entries stacked on the deepest mountpoint. -/
theorem mountOf_eq_head (hpath : CleanPath path)
    (hentries : ∀ e ∈ entries, CleanPath e.mountpoint) :
    mountOf entries path = (stacked entries path).head? := by
  have hcovers : ∀ e ∈ entries, covers path e = true ↔ dirs e.mountpoint <+: dirs path :=
    fun e he => covers_iff hpath (hentries e he)
  have hpicked := picked_mountOf entries path
  generalize mountOf entries path = best at hpicked ⊢
  cases hpicked with
  | none uncovered =>
    have hnil : stacked entries path = [] := by
      rw [stacked, List.filter_eq_nil_iff]
      intro e he hdeepest
      have hcovered := (hcovers e he).mpr (of_decide_eq_true hdeepest).1
      rw [uncovered e he] at hcovered
      cases hcovered
    rw [hnil]
    rfl
  | some before b after split covered longer longest =>
    have hb : b ∈ entries := by simp [split]
    have hbp := (hcovers b hb).mp covered
    have hdeepest : Deepest entries path b := by
      refine ⟨hbp, fun e he hep => Nat.le_of_not_lt fun hlt => ?_⟩
      have hlt := (length_lt_iff (hentries b hb) (hentries e he) hbp hep).mpr hlt
      have hcovered := (hcovers e he).mpr hep
      rw [split] at he
      rcases List.mem_append.mp he with he | he
      · have := longer e he hcovered
        omega
      · rcases List.mem_cons.mp he with rfl | he
        · omega
        · have := longest e he hcovered
          omega
    have hbefore : before.filter (Deepest entries path) = [] := by
      rw [List.filter_eq_nil_iff]
      intro e he hdeep
      obtain ⟨hep, hmax⟩ := of_decide_eq_true hdeep
      have hmem : e ∈ entries := by simp [split, he]
      have hlt := (length_lt_iff (hentries e hmem) (hentries b hb) hep hbp).mp
        (longer e he ((hcovers e hmem).mpr hep))
      have := hmax b hb hbp
      omega
    rw [stacked_split split hdeepest, hbefore]
    rfl

/-! ### The lookup -/

/-- Path lookup ends in the last of the entries stacked on the deepest mountpoint. -/
theorem lookedUp_eq_getLast (hordered : InOrder entries) :
    lookedUp entries path = (stacked entries path).getLast? := by
  have hends := Path.ends_resolve (entries.map (dirs ·.mountpoint)) (dirs path)
  rw [lookedUp]
  generalize resolveMounts (entries.map (dirs ·.mountpoint)) (dirs path) = place at hends ⊢
  cases hends with
  | below uncovered =>
    have hnil : stacked entries path = [] := by
      rw [stacked, List.filter_eq_nil_iff]
      intro e he hdeepest
      exact uncovered _ (List.mem_map_of_mem he) (of_decide_eq_true hdeepest).1
    rw [hnil]
    rfl
  | @on i m inside mounted covered latest =>
    rw [List.getElem?_map, Option.map_eq_some_iff] at mounted
    obtain ⟨e, he, rfl⟩ := mounted
    obtain ⟨hi, hget⟩ := List.getElem?_eq_some_iff.mp he
    have hep : dirs e.mountpoint <+: dirs path := ⟨inside, covered⟩
    have hsplit : entries = entries.take i ++ e :: entries.drop (i + 1) := by
      rw [← hget, List.getElem_cons_drop, List.take_append_drop]
    have hafter : ∀ e' ∈ entries.drop (i + 1), ¬ dirs e'.mountpoint <+: dirs path := by
      intro e' he'
      obtain ⟨j, hj⟩ := List.mem_iff_getElem?.mp he'
      rw [List.getElem?_drop] at hj
      exact latest (i + 1 + j) _ (by omega) (by rw [List.getElem?_map, hj]; rfl)
    have hbefore : ∀ e' ∈ entries.take i, dirs e'.mountpoint <+: dirs path →
        (dirs e'.mountpoint).length ≤ (dirs e.mountpoint).length := by
      intro e' he' hep'
      by_contra hlt
      have hpair := hordered
      rw [InOrder, hsplit, List.pairwise_append] at hpair
      have heq := hpair.2.2 e' he' e List.mem_cons_self
        (List.prefix_of_prefix_length_le hep hep' (by omega))
      rw [heq] at hlt
      exact hlt le_rfl
    have hdeepest : Deepest entries path e := by
      refine ⟨hep, fun e' he' hep' => ?_⟩
      rw [hsplit] at he'
      rcases List.mem_append.mp he' with he' | he'
      · exact hbefore e' he' hep'
      · rcases List.mem_cons.mp he' with rfl | he'
        · exact le_rfl
        · exact absurd hep' (hafter e' he')
    have hnone : (entries.drop (i + 1)).filter (Deepest entries path) = [] := by
      rw [List.filter_eq_nil_iff]
      exact fun e' he' hdeep => hafter e' he' (of_decide_eq_true hdeep).1
    rw [stacked_split hsplit hdeepest, hnone]
    simpa using he

/-- **The mount that `quotaDevice` uses** is the first of the entries stacked on the deepest
mountpoint at or above the path, where path lookup ends in the last.  It is the one that backs the
path exactly when these are the same. -/
theorem quotaDevice_lookup_iff (hpath : CleanPath path)
    (hentries : ∀ e ∈ entries, CleanPath e.mountpoint) (hordered : InOrder entries) :
    quotaDevice (.ok xfsSuperMagic) (.ok entries) path = deviceOf (stacked entries path).head? ∧
      lookedUp entries path = (stacked entries path).getLast? ∧
      (mountOf entries path = lookedUp entries path ↔
        (stacked entries path).head? = (stacked entries path).getLast?) := by
  have hpick := mountOf_eq_head hpath hentries
  have hlookup : lookedUp entries path = (stacked entries path).getLast? :=
    lookedUp_eq_getLast hordered
  refine ⟨?_, hlookup, ?_⟩
  · rw [← hpick]
    rfl
  · rw [hpick, hlookup]

end

/-- A system disk, and a disk for the snapshots with project quotas. -/
def systemMount : MountInfo := ⟨text "/", text "/dev/sda", text "rw", text "rw"⟩

def snapshotMount : MountInfo := ⟨text "/data", text "/dev/sdb", text "rw", text "rw,prjquota"⟩

/-- Another disk mounted over the one for the snapshots. -/
def overMount : MountInfo := { snapshotMount with source := text "/dev/sdc" }

theorem quotaDevice_lookup_single :
    quotaDevice (.ok xfsSuperMagic) (.ok [systemMount, snapshotMount]) (text "/data/7") =
        .ok (text "/dev/sdb") ∧
      mountOf [systemMount, snapshotMount] (text "/data/7") =
        lookedUp [systemMount, snapshotMount] (text "/data/7") := by
  have h := quotaDevice_lookup_iff (show CleanPath (text "/data/7") by decide +kernel)
    (show ∀ e ∈ [systemMount, snapshotMount], CleanPath e.mountpoint by decide +kernel)
    (show InOrder [systemMount, snapshotMount] by decide +kernel)
  exact ⟨h.1.trans (by decide +kernel), h.2.2.mpr (by decide +kernel)⟩

theorem quotaDevice_stacked :
    CleanPath (text "/data/7") ∧
      (∀ e ∈ [systemMount, snapshotMount, overMount], CleanPath e.mountpoint) ∧
      InOrder [systemMount, snapshotMount, overMount] ∧
      quotaDevice (.ok xfsSuperMagic) (.ok [systemMount, snapshotMount, overMount])
        (text "/data/7") = .ok (text "/dev/sdb") ∧
      mountOf [systemMount, snapshotMount, overMount] (text "/data/7") = some snapshotMount ∧
      lookedUp [systemMount, snapshotMount, overMount] (text "/data/7") = some overMount ∧
      snapshotMount ≠ overMount := by
  decide +kernel

end Sandcube.Adapter.MountTable
