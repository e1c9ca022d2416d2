import GbPlay.Library.Layout
import GbPlay.Server.Client

/-!
# The Pokemon structure

`Pokemon` of `pokemon_data_structures.py`, and a reader that takes each field from
its offset, the most significant byte first.  `serialize` splits the experience by
hand and packs its lowest byte first.
-/

namespace GbPlay.Tools.PokemonData

open GbPlay.Library.Layout
open GbPlay.Server.Client (Byte)

/-- The numbers of a Pokemon. -/
@[ext]
structure Stats where
  id : Int
  hp : Int := 0
  levelPc : Int := 0
  status : Int := 0
  type1 : Int := 0
  type2 : Int := 0
  catchRate : Int := 0
  move1 : Int := 0
  move2 : Int := 0
  move3 : Int := 0
  move4 : Int := 0
  trainerId : Int := 0
  xp : Int := 0
  hpEv : Int := 0
  atkEv : Int := 0
  defEv : Int := 0
  spdEv : Int := 0
  spcEv : Int := 0
  iv : Int := 0
  move1Pp : Int := 0
  move2Pp : Int := 0
  move3Pp : Int := 0
  move4Pp : Int := 0
  level : Int := 0
  maxHp : Int := 0
  atk : Int := 0
  defence : Int := 0
  spd : Int := 0
  spc : Int := 0
  deriving DecidableEq, Repr

structure Pokemon extends Stats where
  name : List Char
  deriving DecidableEq, Repr

def serializedLen : Nat := 44

/-- `">BH9BH3B6H5B5H"` -/
def packFormat : List Nat :=
  [1, 2] ++ List.replicate 9 1 ++ [2] ++ List.replicate 3 1 ++ List.replicate 6 2 ++
    List.replicate 5 1 ++ List.replicate 5 2

/-- `none` when `struct.pack` raises. -/
def Pokemon.serialize (p : Pokemon) : Option (List Byte) :=
  pack packFormat
    [p.id, p.hp, p.levelPc, p.status, p.type1, p.type2,
      p.catchRate, p.move1, p.move2, p.move3, p.move4,
      -- `self.xp & 0xFF`, `(self.xp >> 8) & 0xFF`, `(self.xp >> 16) & 0xFF`
      p.trainerId, p.xp % 256, p.xp / 256 % 256,
      p.xp / 65536 % 256, p.hpEv, p.atkEv, p.defEv,
      p.spdEv, p.spcEv, p.iv, p.move1Pp, p.move2Pp,
      p.move3Pp, p.move4Pp, p.level, p.maxHp, p.atk,
      p.defence, p.spd, p.spc]

/-! ## The reader -/

/-- The field of `w` bytes at an offset. -/
def field (bs : List Byte) (offset w : Nat) : Int := decode (slice bs offset w)

/-- The structure as the games read it. -/
def readStats (bs : List Byte) : Stats where
  id := field bs 0 1
  hp := field bs 1 2
  levelPc := field bs 3 1
  status := field bs 4 1
  type1 := field bs 5 1
  type2 := field bs 6 1
  catchRate := field bs 7 1
  move1 := field bs 8 1
  move2 := field bs 9 1
  move3 := field bs 10 1
  move4 := field bs 11 1
  trainerId := field bs 12 2
  xp := field bs 14 3
  hpEv := field bs 17 2
  atkEv := field bs 19 2
  defEv := field bs 21 2
  spdEv := field bs 23 2
  spcEv := field bs 25 2
  iv := field bs 27 2
  move1Pp := field bs 29 1
  move2Pp := field bs 30 1
  move3Pp := field bs 31 1
  move4Pp := field bs 32 1
  level := field bs 33 1
  maxHp := field bs 34 2
  atk := field bs 36 2
  defence := field bs 38 2
  spd := field bs 40 2
  spc := field bs 42 2

/-- The widths of the fields. -/
def fieldWidths : List Nat :=
  [1, 2] ++ List.replicate 9 1 ++ [2, 3] ++ List.replicate 6 2 ++ List.replicate 5 1 ++
    List.replicate 5 2

/-- The numbers in the order of their fields. -/
def Stats.values (s : Stats) : List Int :=
  [s.id, s.hp, s.levelPc, s.status, s.type1, s.type2, s.catchRate, s.move1, s.move2, s.move3,
    s.move4, s.trainerId, s.xp, s.hpEv, s.atkEv, s.defEv, s.spdEv, s.spcEv, s.iv, s.move1Pp,
    s.move2Pp, s.move3Pp, s.move4Pp, s.level, s.maxHp, s.atk, s.defence, s.spd, s.spc]

/-- Every number fits the width of its field. -/
def Stats.Fits (s : Stats) : Prop := List.Forall₂ InWidth fieldWidths s.values

instance (s : Stats) : Decidable s.Fits := inferInstanceAs (Decidable (List.Forall₂ _ _ _))

theorem values_injective : Function.Injective Stats.values := by
  intro s s' h
  simp only [Stats.values, List.cons.injEq, and_true] at h
  exact Stats.ext_iff.mpr h

theorem values_readStats (bs : List Byte) : (readStats bs).values = unpack fieldWidths bs := by
  simp [Stats.values, readStats, fieldWidths, unpack, field, slice, List.replicate]

/-- The three bytes of a number in the opposite order. -/
def swap (n : Int) : Int := n % 256 * 65536 + n / 256 % 256 * 256 + n / 65536 % 256

/-- The numbers as `serialize` writes them. -/
def Stats.swapXp (s : Stats) : Stats := { s with xp := swap s.xp }

/-- Three fields of a byte are packed like one of three bytes. -/
theorem pack_three {a b c : Int} (ha : InWidth 1 a) (hb : InWidth 1 b) (hc : InWidth 1 c) :
    pack [1, 1, 1] [a, b, c] = pack [3] [a * 65536 + b * 256 + c] := by
  obtain ⟨a, rfl⟩ := Int.eq_ofNat_of_zero_le ha.1
  obtain ⟨b, rfl⟩ := Int.eq_ofNat_of_zero_le hb.1
  obtain ⟨c, rfl⟩ := Int.eq_ofNat_of_zero_le hc.1
  have ha' := ha.2
  have hb' := hb.2
  have hc' := hc.2
  have hsum : InWidth 3 ((a : Int) * 65536 + b * 256 + c) := by
    constructor <;> omega
  have hnat : ((a : Int) * 65536 + b * 256 + c).toNat = a * 65536 + b * 256 + c := by omega
  rw [pack, if_pos ha, pack, if_pos hb, pack, if_pos hc, pack, pack, if_pos hsum, hnat, pack]
  have hbyte {m n : Nat} (h : m % 256 = n % 256) : UInt8.ofNat m = UInt8.ofNat n := by
    apply UInt8.toNat_inj.mp
    rw [UInt8.toNat_ofNat', UInt8.toNat_ofNat', h]
  simp only [encode, Option.map_some, List.cons_append, List.nil_append, Int.toNat_natCast]
  congr 2
  · apply hbyte
    omega
  · congr 1
    · apply hbyte
      omega
    · congr 1
      apply hbyte
      omega

theorem inWidth_mod (v : Int) : InWidth 1 (v % 256) := by
  constructor <;> omega

/-- The numbers before the experience, and those after it. -/
def Stats.before (s : Stats) : List Int := s.values.take 12

def Stats.after (s : Stats) : List Int := s.values.drop 13

theorem serialize_eq (p : Pokemon) : p.serialize = pack fieldWidths p.toStats.swapXp.values := by
  have hthree := pack_three (inWidth_mod p.xp) (inWidth_mod (p.xp / 256))
    (inWidth_mod (p.xp / 65536))
  have hserialize : p.serialize = pack (fieldWidths.take 12 ++ ([1, 1, 1] ++ fieldWidths.drop 13))
      (p.before ++ ([p.xp % 256, p.xp / 256 % 256, p.xp / 65536 % 256] ++ p.after)) := rfl
  have hvalues : pack fieldWidths p.toStats.swapXp.values =
      pack (fieldWidths.take 12 ++ ([3] ++ fieldWidths.drop 13))
        (p.before ++ ([p.xp % 256 * 65536 + p.xp / 256 % 256 * 256 + p.xp / 65536 % 256] ++
          p.after)) := rfl
  rw [hserialize, hvalues, pack_append rfl, pack_append rfl, pack_append rfl, pack_append rfl,
    hthree]

/-- The reader finds the experience swapped. -/
theorem readStats_serialize {p : Pokemon} {bs : List Byte} (h : p.serialize = some bs) :
    readStats bs = p.toStats.swapXp := by
  apply values_injective
  rw [values_readStats]
  rw [serialize_eq] at h
  exact unpack_of_pack h

/-! ## Swapped bytes -/

theorem exists_bytes {n : Int} (h : InWidth 3 n) :
    ∃ a b c, InWidth 1 a ∧ InWidth 1 b ∧ InWidth 1 c ∧ n = a * 65536 + b * 256 + c := by
  obtain ⟨hpos, hlt⟩ := h
  have hhigh : n / 65536 = n / 256 / 256 := by omega
  refine ⟨n / 65536, n / 256 % 256, n % 256, ?_, inWidth_mod _, inWidth_mod _, by omega⟩
  constructor <;> omega

theorem bytes_of_sum {a b c : Int} (ha : InWidth 1 a) (hb : InWidth 1 b) (hc : InWidth 1 c) :
    (a * 65536 + b * 256 + c) % 256 = c ∧ (a * 65536 + b * 256 + c) / 256 % 256 = b ∧
      (a * 65536 + b * 256 + c) / 65536 = a := by
  obtain ⟨hapos, halt⟩ := ha
  obtain ⟨hbpos, hblt⟩ := hb
  obtain ⟨hcpos, hclt⟩ := hc
  refine ⟨?_, ?_, ?_⟩ <;> omega

theorem swap_bytes {a b c : Int} (ha : InWidth 1 a) (hb : InWidth 1 b) (hc : InWidth 1 c) :
    swap (a * 65536 + b * 256 + c) = c * 65536 + b * 256 + a := by
  obtain ⟨hlow, hmiddle, hhigh⟩ := bytes_of_sum ha hb hc
  have hmod : a % 256 = a := Int.emod_eq_of_lt ha.1 ha.2
  rw [swap, hlow, hmiddle, hhigh, hmod]

theorem inWidth_swap (n : Int) : InWidth 3 (swap n) := by
  constructor <;> unfold swap <;> omega

theorem swap_swap {n : Int} (h : InWidth 3 n) : swap (swap n) = n := by
  obtain ⟨a, b, c, ha, hb, hc, rfl⟩ := exists_bytes h
  rw [swap_bytes ha hb hc, swap_bytes hc hb ha]

theorem swap_eq_iff {n : Int} (h : InWidth 3 n) : swap n = n ↔ n % 256 = n / 65536 := by
  obtain ⟨a, b, c, ha, hb, hc, rfl⟩ := exists_bytes h
  obtain ⟨hlow, _, hhigh⟩ := bytes_of_sum ha hb hc
  rw [swap_bytes ha hb hc, hlow, hhigh]
  constructor <;> intro heq <;> omega

section Stats

variable {s : Stats}

theorem inWidth_xp (h : s.Fits) : InWidth 3 s.xp :=
  (List.forall₂_iff_get.mp h).2 12 (by decide) (by simp [Stats.values])

theorem swapXp_fits (h : s.Fits) : s.swapXp.Fits := by
  have hvalues : s.swapXp.values = s.values.set 12 (swap s.xp) := rfl
  rw [Stats.Fits, hvalues]
  exact forall₂_set h rfl (inWidth_swap s.xp)

theorem swapXp_swapXp (h : s.Fits) : s.swapXp.swapXp = s := by
  calc s.swapXp.swapXp = { s with xp := swap (swap s.xp) } := rfl
    _ = s := by rw [swap_swap (inWidth_xp h)]

theorem swapXp_eq_iff (h : s.Fits) : s.swapXp = s ↔ s.xp % 256 = s.xp / 65536 := by
  rw [← swap_eq_iff (inWidth_xp h)]
  constructor
  · intro heq
    exact congrArg Stats.xp heq
  · intro hxp
    rw [Stats.swapXp, hxp]

end Stats

/-! ## The contract -/

/-- The reader recovers every number, and no other numbers are serialized alike. -/
structure Decodable (p : Pokemon) : Prop where
  read : ∃ bs, p.serialize = some bs ∧ bs.length = serializedLen ∧ readStats bs = p.toStats
  distinct : ∀ q : Pokemon, q.Fits → q.serialize = p.serialize → q.toStats = p.toStats

theorem serialize_of_fits {p : Pokemon} (h : p.Fits) :
    ∃ bs, p.serialize = some bs ∧ bs.length = serializedLen := by
  obtain ⟨bs, hbs⟩ := pack_of_inWidth (swapXp_fits h)
  exact ⟨bs, (serialize_eq p).trans hbs, length_of_pack hbs⟩

/-- Different numbers are serialized differently. -/
theorem serialize_injective {p q : Pokemon} (hp : p.Fits) (hq : q.Fits)
    (h : q.serialize = p.serialize) : q.toStats = p.toStats := by
  obtain ⟨bs, hbs, _⟩ := serialize_of_fits hp
  have hswapped : q.swapXp = p.swapXp :=
    (readStats_serialize (h.trans hbs)).symm.trans (readStats_serialize hbs)
  rw [← swapXp_swapXp hq, ← swapXp_swapXp hp, hswapped]

/-- A Pokemon is decoded from its serialization if and only if the highest and the lowest
byte of its experience are equal. -/
theorem decodable_iff {p : Pokemon} (h : p.Fits) :
    Decodable p ↔ p.xp % 256 = p.xp / 65536 := by
  obtain ⟨bs, hbs, hlength⟩ := serialize_of_fits h
  rw [← swapXp_eq_iff h, ← readStats_serialize hbs]
  constructor
  · intro hdecodable
    obtain ⟨bs', hbs', _, hread⟩ := hdecodable.read
    cases hbs.symm.trans hbs'
    exact hread
  · intro hread
    exact ⟨⟨bs, hbs, hlength, hread⟩, fun q hq heq => serialize_injective h hq heq⟩

/-- As the example of the trade tool has it: only the species and the name are given. -/
def mew : Pokemon := { id := 0x15, name := ['M', 'E', 'W'] }

/-- A trained one, with every number given; the lowest and the highest byte of its experience are
the same. -/
def pikachu : Pokemon where
  id := 0x54
  hp := 0x0120
  levelPc := 81
  status := 0x40
  type1 := 0x17
  type2 := 0x18
  catchRate := 190
  move1 := 84
  move2 := 45
  move3 := 86
  move4 := 98
  trainerId := 0xBEEF
  xp := 0x080908
  hpEv := 0x1234
  atkEv := 0x2345
  defEv := 0x3456
  spdEv := 0x4567
  spcEv := 0x5678
  iv := 0xA9C7
  move1Pp := 30
  move2Pp := 40
  move3Pp := 20
  move4Pp := 29
  level := 80
  maxHp := 0x0143
  atk := 0x0102
  defence := 0x0103
  spd := 0x0104
  spc := 0x0105
  name := ['S', 'P', 'A', 'R', 'K', 'Y']

theorem decodable_pikachu : Decodable pikachu := (decodable_iff (by decide)).mpr (by decide)

/-- An experience of 1 is read as 65536. -/
theorem xp_swapped :
    ¬Decodable { mew with xp := 1 } ∧
      ∃ bs, ({ mew with xp := 1 } : Pokemon).serialize = some bs ∧ (readStats bs).xp = 65536 := by
  obtain ⟨bs, hbs, _⟩ := serialize_of_fits (p := { mew with xp := 1 }) (by decide)
  have hread := readStats_serialize hbs
  refine ⟨fun hdecodable => ?_, bs, hbs, congrArg Stats.xp hread⟩
  obtain ⟨bs', hbs', _, hread'⟩ := hdecodable.read
  cases hbs.symm.trans hbs'
  have hxp : (65536 : Int) = 1 := congrArg Stats.xp (hread.symm.trans hread')
  cases hxp

end GbPlay.Tools.PokemonData
