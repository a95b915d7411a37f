import Mathlib.Data.List.Induction
import SolarisXorg.Dga.Proof.Cmap

/-!
# The shadow of a grabbed colormap

An entry of the colormap is three entries of the planes, `cm_reallen` apart. A call of either writer
stores the three values of the entries that it covers and their flags, and no others
(`storePlanes_spec`, `storeFlags_spec`, `writeShadow_spec`), and stays in the shadow. After a
sequence of calls an entry has the colour last written to it (`replay_spec`), as a value that is
doubled to 16 bits is the upper half of these again (`narrow_stutter`).
-/

namespace Dga.Cmap

open Lib

variable {m m' : Grabbedcmap} {a : CmArgs}

/-! ## A plane -/

/-- The upper half of a value that is doubled. -/
theorem narrow_stutter (v : UInt8) : narrow (stutter v) = v := by
  have hall : ∀ n : Fin 256, narrow (stutter (.ofNat n)) = .ofNat n := by decide +kernel
  have hv := hall ⟨v.toNat, v.toNat_lt⟩
  rwa [UInt8.ofNat_toNat] at hv

theorem storePlane_spec (planes : List Int16) (pos : Int) {values : List UInt8} {n : Nat}
    (hn : n ≤ values.length) (hpos : 0 ≤ pos) (hlen : pos + n ≤ planes.length) :
    ∃ planes', storePlane planes pos n values = some planes' ∧
      planes'.length = planes.length ∧ ∀ i : Nat, planes'.getD i 0 =
        if pos ≤ i ∧ i < pos + n then stutter (values.getD (i - pos).toNat 0)
        else planes.getD i 0 := by
  have hlength : ((values.take n).map stutter).length = n := by
    rw [List.length_map, List.length_take, Nat.min_eq_left hn]
  obtain ⟨planes', hstore, hlen'⟩ := exists_storeEach (m := planes) ((values.take n).map stutter)
    hpos (hlength.symm ▸ hlen)
  refine ⟨planes', by rw [storePlane, if_pos hn, hstore], hlen', fun i => ?_⟩
  rw [List.getD_eq_getElem?_getD, getElem?_storeEach hstore, hlength]
  by_cases hin : pos ≤ i ∧ i < pos + n
  case neg => rw [if_neg hin, if_neg hin, ← List.getD_eq_getElem?_getD]
  rw [if_pos hin, if_pos hin, List.getElem?_map, List.getElem?_take, if_pos (by omega),
    List.getD_eq_getElem?_getD, List.getElem?_eq_getElem (by omega)]
  rfl

/-! ## The planes -/

theorem Grabbedcmap.Mapped.bound (hm : m.Mapped) : 7 * m.cmReallen.toInt < 2 ^ 31 := by
  have hfilelen := hm.filelen
  have hofs := hm.shadowofs
  have hlt := m.filelen.toInt_lt
  omega

/-- The loops for the planes stay in the planes, and store the colours of the entries. -/
theorem storePlanes_spec (hm : m.Mapped) (hindex : 0 ≤ a.index.toInt) {n : Nat}
    (hinside : a.index.toInt + n ≤ m.cmReallen.toInt) (hred : n ≤ a.red.length)
    (hgreen : n ≤ a.green.length) (hblue : n ≤ a.blue.length) :
    ∃ planes, storePlanes m n a = some planes ∧ planes.length = m.planes.length ∧
      ∀ e : Nat, e < m.cmReallen.toInt → { m with planes := planes }.colorAt e =
        if a.index.toInt ≤ e ∧ e < a.index.toInt + n then a.color e else m.colorAt e := by
  have hplanes := hm.planes
  obtain ⟨planes₁, hstore₁, hlen₁, hget₁⟩ := storePlane_spec m.planes a.index.toInt hred hindex
    (by omega)
  obtain ⟨planes₂, hstore₂, hlen₂, hget₂⟩ := storePlane_spec planes₁
    (a.index.toInt + m.cmReallen.toInt) hgreen (by omega) (by omega)
  obtain ⟨planes₃, hstore₃, hlen₃, hget₃⟩ := storePlane_spec planes₂
    (a.index.toInt + m.cmReallen.toInt + m.cmReallen.toInt) hblue (by omega) (by omega)
  refine ⟨planes₃, ?_, by omega, fun e he => ?_⟩
  · rw [storePlanes]
    dsimp only
    rw [hstore₁]
    dsimp only [Option.bind_eq_bind]
    rw [Option.bind_some, hstore₂, Option.bind_some, hstore₃]
  rw [Grabbedcmap.colorAt]
  dsimp only
  by_cases hin : a.index.toInt ≤ e ∧ e < a.index.toInt + n
  case pos =>
    have hentry : planes₃.getD e 0 = stutter (a.red.getD (e - a.index.toInt).toNat 0) := by
      rw [hget₃, if_neg (by omega), hget₂, if_neg (by omega), hget₁, if_pos hin]
    have hentry' : planes₃.getD (m.cmReallen.toInt.toNat + e) 0 =
        stutter (a.green.getD (e - a.index.toInt).toNat 0) := by
      rw [hget₃, if_neg (by omega), hget₂, if_pos (by omega)]
      congr 3
      omega
    have hentry'' : planes₃.getD (2 * m.cmReallen.toInt.toNat + e) 0 =
        stutter (a.blue.getD (e - a.index.toInt).toNat 0) := by
      rw [hget₃, if_pos (by omega)]
      congr 3
      omega
    rw [if_pos hin, hentry, hentry', hentry'']
    simp only [narrow_stutter]
    rfl
  rw [if_neg hin, hget₃, if_neg (by omega), hget₂, if_neg (by omega), hget₁, if_neg hin, hget₃,
    if_neg (by omega), hget₂, if_neg (by omega), hget₁, if_neg (by omega), hget₃,
    if_neg (by omega), hget₂, if_neg (by omega), hget₁, if_neg (by omega)]
  rfl

/-! ## The flags -/

/-- The loop for the flags stays in the flags. -/
theorem storeFlags_spec (hm : m.Mapped) (hindex : 0 ≤ a.index.toInt) {n : Nat}
    (hinside : a.index.toInt + n ≤ m.cmReallen.toInt) :
    ∃ flags, storeFlags m n a = some flags ∧ flags.length = m.flags.length ∧
      ∀ e : Nat, flags[e]? =
        if a.index.toInt ≤ e ∧ e < a.index.toInt + n then some 1 else m.flags[e]? := by
  have hbound := hm.bound
  have hplanes := hm.planes
  have hflags := hm.flags
  have hreallen := hm.reallen
  have hthree : (3 * m.cmReallen).toInt = 3 * m.cmReallen.toInt := by
    rw [Int32.toInt_mul]
    exact Int.bmod_eq_of_le (by show -2 ^ 31 ≤ 3 * m.cmReallen.toInt; omega)
      (by show 3 * m.cmReallen.toInt < 2 ^ 31; omega)
  have hfp : (3 * m.cmReallen).toInt * 2 + a.index.toInt - 2 * m.planes.length =
      a.index.toInt := by
    rw [hthree, hplanes]
    omega
  obtain ⟨flags, hstore, hlen⟩ := exists_storeEach (m := m.flags) (List.replicate n 1) hindex
    (by rw [List.length_replicate]; omega)
  refine ⟨flags, ?_, hlen, fun e => ?_⟩
  · rw [storeFlags, hfp, hstore]
  rw [getElem?_storeEach hstore, List.length_replicate]
  by_cases hin : a.index.toInt ≤ e ∧ e < a.index.toInt + n
  case neg => rw [if_neg hin, if_neg hin]
  rw [if_pos hin, if_pos hin, List.getElem?_replicate, if_pos (by omega)]

/-! ## A call -/

theorem widen_eq (index count : Int32) :
    ∃ start len, widen m index count = { m with cmStart := start, cmLen := len } := by
  rw [widen]
  split <;> split <;> exact ⟨_, _, rfl⟩

/-- A call covers the entries up to the clipped count. -/
theorem covers_iff (hreallen : 0 ≤ m.cmReallen.toInt) (ha : a.Valid) {e : Nat}
    (he : e < m.cmReallen.toInt) : a.Covers m.cmReallen e ↔
      a.index.toInt ≤ e ∧ e < a.index.toInt + (clip m.cmReallen a.index a.count).toInt := by
  rw [CmArgs.Covers, clip_toInt hreallen ha.index ha.fits]
  split <;> omega

/-- Both writers store the colours and the flags of `count` entries, and stay in the shadow. -/
theorem writeShadow_spec (hm : m.Mapped) (ha : a.Valid) {count : Int32} (hcount : 0 ≤ count.toInt)
    (hle : count.toInt ≤ a.count.toInt)
    (hinside : a.index.toInt + count.toInt ≤ m.cmReallen.toInt) :
    ∃ m', writeShadow m count a = some m' ∧ m'.Mapped ∧ m'.cmReallen = m.cmReallen ∧
      ∀ e : Nat, e < m.cmReallen.toInt →
        (m'.colorAt e = if a.index.toInt ≤ e ∧ e < a.index.toInt + count.toInt then a.color e
          else m.colorAt e) ∧
        m'.flags[e]? = if a.index.toInt ≤ e ∧ e < a.index.toInt + count.toInt then some 1
          else m.flags[e]? := by
  obtain ⟨n, hn⟩ := Int.eq_ofNat_of_zero_le hcount
  obtain ⟨start, len, hwiden⟩ := widen_eq (m := m) a.index count
  have hred := ha.red
  have hgreen := ha.green
  have hblue := ha.blue
  have hmapped : { m with cmStart := start, cmLen := len }.Mapped :=
    ⟨hm.reallen, hm.shadowofs, hm.planes, hm.flags, hm.filelen⟩
  obtain ⟨planes, hplanes, hlen, hcolors⟩ := storePlanes_spec hmapped ha.index (n := n)
    (by dsimp only; omega) (by omega) (by omega) (by omega)
  have hmapped' : { m with cmStart := start, cmLen := len, planes := planes }.Mapped :=
    ⟨hm.reallen, hm.shadowofs, hlen ▸ hm.planes, hm.flags, hm.filelen⟩
  obtain ⟨flags, hflags, hlen', hset⟩ := storeFlags_spec hmapped' ha.index (n := n)
    (by dsimp only; omega)
  rw [writeShadow, hwiden, hn, Int.toNat_natCast]
  dsimp only
  rw [hplanes]
  dsimp only [Option.bind_eq_bind]
  rw [Option.bind_some, hflags, Option.bind_some]
  exact ⟨_, rfl, ⟨hm.reallen, hm.shadowofs, hmapped'.planes, hlen' ▸ hm.flags, hm.filelen⟩, rfl,
    fun e he => ⟨hcolors e he, hset e⟩⟩

/-- **A call** stays in the shadow, and stores the colours and the flags of the entries that it
covers. -/
theorem apply_spec (hm : m.Mapped) {k : Call} (hk : k.args.Valid) :
    ∃ m', k.apply m = some m' ∧ m'.Mapped ∧ m'.cmReallen = m.cmReallen ∧
      ∀ e : Nat, e < m.cmReallen.toInt →
        m'.colorAt e = (if k.args.Covers m.cmReallen e then k.args.color e else m.colorAt e) ∧
        m'.flags[e]? = if k.args.Covers m.cmReallen e then some 1 else m.flags[e]? := by
  have hreallen := hm.reallen
  have hle : (clip m.cmReallen k.args.index k.args.count).toInt ≤ k.args.count.toInt := by
    rw [clip_toInt hreallen hk.index hk.fits]
    split <;> omega
  rw [apply_eq]
  by_cases hcount : 0 < clip m.cmReallen k.args.index k.args.count
  case neg =>
    rw [if_neg hcount]
    rw [Int32.lt_iff_toInt_lt, Int32.toInt_zero] at hcount
    refine ⟨m, rfl, hm, rfl, fun e he => ?_⟩
    have hnone : ¬k.args.Covers m.cmReallen e := by
      rw [covers_iff hreallen hk he]
      omega
    rw [if_neg hnone, if_neg hnone]
    exact ⟨rfl, rfl⟩
  rw [if_pos hcount]
  rw [Int32.lt_iff_toInt_lt, Int32.toInt_zero] at hcount
  obtain ⟨m', hwrite, hm', hreallen', hentry⟩ := writeShadow_spec hm hk (Int.le_of_lt hcount) hle
    (clip_inside hreallen hk.index hk.fits)
  refine ⟨bump m', by rw [hwrite, Option.map_some], ⟨hm'.reallen, hm'.shadowofs, hm'.planes,
    hm'.flags, hm'.filelen⟩, hreallen', fun e he => ?_⟩
  simp only [covers_iff hreallen hk he]
  exact hentry e he

/-! ## Calls of all clients -/

theorem lastWritten_append (reallen : Int32) (calls : List Call) (k : Call) (e : Nat) :
    lastWritten reallen (calls ++ [k]) e =
      if k.args.Covers reallen e then some (k.args.color e)
      else lastWritten reallen calls e := by
  rw [lastWritten, List.reverse_append, List.reverse_singleton, List.singleton_append,
    List.find?_cons]
  by_cases hcovers : k.args.Covers reallen e
  case pos =>
    rw [if_pos hcovers, decide_eq_true hcovers]
    rfl
  rw [if_neg hcovers, decide_eq_false hcovers]
  rfl

/-- After a sequence of calls, which all stay in the shadow. -/
theorem replay_spec (hm : m.Mapped) {calls : List Call} (hcalls : ∀ k ∈ calls, k.args.Valid) :
    ∃ m', calls.foldlM Call.apply m = some m' ∧ m'.Mapped ∧ m'.cmReallen = m.cmReallen ∧
      ∀ e : Nat, e < m.cmReallen.toInt →
        m'.colorAt e = (lastWritten m.cmReallen calls e).getD (m.colorAt e) ∧
        m'.flags[e]? =
          if (lastWritten m.cmReallen calls e).isSome then some 1 else m.flags[e]? := by
  induction calls using List.reverseRecOn with
  | nil => exact ⟨m, rfl, hm, rfl, fun e he => ⟨rfl, rfl⟩⟩
  | append_singleton calls k ih =>
    obtain ⟨m₁, hrun, hm₁, hreallen, hentry⟩ := ih fun k' hk' =>
      hcalls k' (List.mem_append_left _ hk')
    obtain ⟨m₂, happly, hm₂, hreallen', hentry'⟩ := apply_spec hm₁
      (hcalls k (List.mem_append_right _ (List.mem_singleton_self k)))
    rw [hreallen] at hreallen' hentry'
    refine ⟨m₂, ?_, hm₂, hreallen', fun e he => ?_⟩
    · rw [List.foldlM_append, hrun]
      dsimp only [Option.bind_eq_bind]
      rw [Option.bind_some, List.foldlM_cons, happly]
      rfl
    obtain ⟨hcolor, hflag⟩ := hentry e he
    obtain ⟨hcolor', hflag'⟩ := hentry' e he
    rw [hcolor', hflag', hcolor, hflag, lastWritten_append]
    by_cases hcovers : k.args.Covers m.cmReallen e
    case pos =>
      simp only [if_pos hcovers]
      exact ⟨rfl, rfl⟩
    simp only [if_neg hcovers]
    exact ⟨trivial, trivial⟩

/-! ## Reading -/

/-- Part of a plane, which begins at entry `k`. -/
theorem loadEach_plane {planes : List Int16} {index pos : Int} {k n : Nat} (hindex : 0 ≤ index)
    (hpos : pos = index + k) (hlen : pos + n ≤ planes.length) :
    loadEach planes pos n =
      some ((List.range' index.toNat n).map fun e => planes.getD (k + e) 0) := by
  rw [loadEach_eq (by omega) hlen, Option.some.injEq]
  refine List.ext_getElem? fun i => ?_
  rw [List.getElem?_take, List.getElem?_map, List.getElem?_drop]
  by_cases hi : i < n
  case neg =>
    have hlength : (List.range' index.toNat n).length ≤ i := by
      rw [List.length_range']
      omega
    rw [if_neg hi, List.getElem?_eq_none hlength, Option.map_none]
  have hpos' : pos.toNat + i = k + (index.toNat + 1 * i) := by omega
  rw [if_pos hi, List.getElem?_range' hi, Option.map_some, hpos', List.getD_eq_getElem?_getD,
    List.getElem?_eq_getElem (by omega)]
  rfl

/-- The entries that are read are entries of the colormap. -/
theorem mem_entries (hm : m.Mapped) {index count : Int32} (hindex : 0 ≤ index.toInt)
    (hfits : index.toInt + count.toInt < 2 ^ 31) {e : Nat}
    (he : e ∈ entries m.cmReallen index count) : e < m.cmReallen.toInt := by
  have hinside := clip_inside hm.reallen hindex hfits
  rw [entries, List.mem_range'_1] at he
  omega

/-- `dga_cm_get` stays in the planes. -/
theorem dgaCmGet_spec (hm : m.Mapped) {index count : Int32} (hindex : 0 ≤ index.toInt)
    (hfits : index.toInt + count.toInt < 2 ^ 31) :
    dgaCmGet m index count =
      let colors := (entries m.cmReallen index count).map m.colorAt
      some (colors.map Rgb.red, colors.map Rgb.green, colors.map Rgb.blue) := by
  have hreallen := hm.reallen
  have hplanes := hm.planes
  have hinside := clip_inside hreallen hindex hfits
  rw [dgaCmGet, entries]
  by_cases hcount : 0 < clip m.cmReallen index count
  case neg =>
    rw [if_neg hcount]
    rw [Int32.lt_iff_toInt_lt, Int32.toInt_zero] at hcount
    have hnone : (clip m.cmReallen index count).toInt.toNat = 0 := Int.toNat_of_nonpos (by omega)
    rw [hnone]
    rfl
  rw [if_pos hcount]
  rw [Int32.lt_iff_toInt_lt, Int32.toInt_zero] at hcount
  dsimp only
  rw [loadEach_plane (k := 0) hindex (by omega) (by omega)]
  dsimp only [Option.bind_eq_bind]
  rw [Option.bind_some, loadEach_plane (k := m.cmReallen.toInt.toNat) hindex (by omega) (by omega),
    Option.bind_some,
    loadEach_plane (k := 2 * m.cmReallen.toInt.toNat) hindex (by omega) (by omega),
    Option.bind_some]
  simp only [List.map_map, Nat.zero_add]
  rfl

/-- **What was written is read back.** Every sequence of calls stays in the shadow; then each entry
is read with the colour last written to it, the flag of exactly the entries written is set, and the
two writers make the same of the shared colormap. -/
theorem shadow_reads_back (hm : m.Mapped) {calls : List Call}
    (hcalls : ∀ k ∈ calls, k.args.Valid) :
    ∃ m', calls.foldlM Call.apply m = some m' ∧
      (∀ index count : Int32, 0 ≤ index.toInt → index.toInt + count.toInt < 2 ^ 31 →
        let colors := (entries m.cmReallen index count).map fun e =>
          (lastWritten m.cmReallen calls e).getD (m.colorAt e)
        dgaCmGet m' index count =
          some (colors.map Rgb.red, colors.map Rgb.green, colors.map Rgb.blue)) ∧
      (∀ e : Nat, e < m.cmReallen.toInt → m'.flags[e]? =
        if (lastWritten m.cmReallen calls e).isSome then some 1 else m.flags[e]?) ∧
      ∀ (a : CmArgs) (clutpostOk : Bool) (c c' : Client), a.Valid →
        ∃ m'', (Call.put clutpostOk c a).apply m' = some m'' ∧
          (Call.write c' a).apply m' = some m'' := by
  obtain ⟨m', hrun, hm', hreallen, hentry⟩ := replay_spec hm hcalls
  refine ⟨m', hrun, fun index count hindex hfits => ?_, fun e he => (hentry e he).2,
    fun a clutpostOk c c' ha => ?_⟩
  · dsimp only
    rw [dgaCmGet_spec hm' hindex hfits, hreallen]
    have hcolors : (entries m.cmReallen index count).map m'.colorAt =
        (entries m.cmReallen index count).map fun e =>
          (lastWritten m.cmReallen calls e).getD (m.colorAt e) := by
      refine List.map_congr_left fun e he => (hentry e ?_).1
      rw [← hreallen] at he ⊢
      exact mem_entries hm' hindex hfits he
    rw [hcolors]
  · obtain ⟨m'', happly, -⟩ := apply_spec (k := .put clutpostOk c a) hm' ha
    refine ⟨m'', happly, ?_⟩
    rw [apply_eq] at happly ⊢
    exact happly

/-- A colormap of two entries, of which none was written. -/
def twoEntries : Grabbedcmap where
  cmCount := 0
  cmInstalled := false
  cmReallen := 2
  cmStart := 0
  cmLen := 0
  cmCmapnum := 0
  cmIoctlbits := 0
  cmShadowofs := 4096
  planes := List.replicate 6 0
  flags := List.replicate 2 0

/-- White, written to the second of them. -/
def writeSecond : List Call := [.put true ⟨0, true⟩ ⟨1, 1, [0xff], [0xff], [0xff]⟩]

theorem shadow_reads_back_two :
    ∃ m', writeSecond.foldlM Call.apply twoEntries = some m' ∧
      dgaCmGet m' 0 2 = some ([0, 0xff], [0, 0xff], [0, 0xff]) ∧
      m'.flags[0]? = some 0 ∧ m'.flags[1]? = some 1 := by
  have hmapped : twoEntries.Mapped := ⟨by decide, by decide, by decide, by decide, by decide⟩
  have hvalid : ∀ k ∈ writeSecond, k.args.Valid := by
    intro k hk
    rw [List.mem_singleton.1 hk]
    exact ⟨by decide, by decide, by decide, by decide, by decide⟩
  obtain ⟨m', hrun, hget, hflag, -⟩ := shadow_reads_back hmapped hvalid
  exact ⟨m', hrun, hget 0 2 (by decide) (by decide), hflag 0 (by decide), hflag 1 (by decide)⟩

end Dga.Cmap
