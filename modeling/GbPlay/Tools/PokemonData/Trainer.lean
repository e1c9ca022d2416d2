import GbPlay.Tools.PokemonData.Pokemon

/-!
# The trainer block

`text_to_pokestr` and `Trainer` of `pokemon_data_structures.py`.  The six segments
of a block have their fixed offsets as long as the party has at most six members.
-/

namespace GbPlay.Tools.PokemonData

open GbPlay.Library.Layout
open GbPlay.Server.Client (Byte)

def pokeTextOfs : Int := 0x3F
def pokeTextTerminator : Int := 0x50
def pokeTextMaxLen : Nat := 10
def pokeListTerminator : Int := 0xFF
def maxPartyPokemon : Nat := 6
def preambleValue : Int := 0xFD

/-- `bytes(…)`; `none` when it raises. -/
def bytes (ns : List Int) : Option (List Byte) :=
  if ∀ n ∈ ns, 0 ≤ n ∧ n < 256 then some (ns.map fun n => UInt8.ofNat n.toNat) else none

/-- `text_to_pokestr`, on the characters of the string. -/
def textToPokestr (s : List Char) : Option (List Byte) :=
  if s.length > pokeTextMaxLen then none
  else
    let ps := s.zipIdx.foldl (fun ps x => ps.set x.2 (x.1.toNat + pokeTextOfs))
      (List.replicate (pokeTextMaxLen + 1) 0)
    bytes (ps.set s.length pokeTextTerminator)

structure Trainer where
  partyPokemon : List Pokemon := []
  name : List Char
  deriving DecidableEq, Repr

namespace Trainer

/-- `none` when it raises. -/
def addPartyPokemon (t : Trainer) (pokemon : Pokemon) : Option Trainer :=
  if t.partyPokemon.length > maxPartyPokemon then none
  else some { t with partyPokemon := t.partyPokemon ++ [pokemon] }

/-- Calls of `add_party_pokemon`; one that raises changes nothing. -/
def addAll (t : Trainer) (pokemon : List Pokemon) : Trainer :=
  pokemon.foldl (fun t p => (t.addPartyPokemon p).getD t) t

/-- Python's `xs * n` -/
def times (xs : List Byte) (n : Int) : List Byte := (List.replicate n.toNat xs).flatten

def serialize (t : Trainer) : Option (List Byte) := do
  let size : Int := t.partyPokemon.length
  let preamble ← bytes (List.replicate 7 preambleValue)
  let name ← textToPokestr t.name
  let length ← bytes [size]
  let species ← bytes (t.partyPokemon.map (fun mon => mon.id) ++
    List.replicate (maxPartyPokemon - size + 1).toNat pokeListTerminator)
  let pokemon ← t.partyPokemon.mapM fun mon => mon.serialize
  let trainers ← t.partyPokemon.mapM fun _ => textToPokestr t.name
  let nicknames ← t.partyPokemon.mapM fun mon => textToPokestr mon.name
  let empty ← textToPokestr []
  some (preamble ++ name ++ length ++ species ++
    (pokemon.flatten ++ times (List.replicate serializedLen 0) (maxPartyPokemon - size)) ++
    (trainers.flatten ++ times empty (maxPartyPokemon - size)) ++
    (nicknames.flatten ++ times empty (maxPartyPokemon - size)))

end Trainer

/-! ## Names -/

/-- At most ten characters, each of which has a code. -/
def Encodable (s : List Char) : Prop :=
  s.length ≤ pokeTextMaxLen ∧ ∀ c ∈ s, (c.toNat : Int) + pokeTextOfs ≤ 255

instance (s : List Char) : Decidable (Encodable s) :=
  decidable_of_iff
    (s.length ≤ pokeTextMaxLen ∧ s.all (fun c => (c.toNat : Int) + pokeTextOfs ≤ 255) = true)
    (by simp [Encodable])

def characterCode (c : Char) : Byte := UInt8.ofNat (c.toNat + pokeTextOfs).toNat

/-- The text in a field of eleven bytes. -/
def pokestr (s : List Char) : List Byte :=
  s.map characterCode ++ 0x50 :: List.replicate (pokeTextMaxLen - s.length) 0

theorem length_pokestr {s : List Char} (h : s.length ≤ pokeTextMaxLen) :
    (pokestr s).length = 11 := by
  simp only [pokestr, pokeTextMaxLen, List.length_append, List.length_map, List.length_cons,
    List.length_replicate] at h ⊢
  omega

theorem foldl_set (f : Char → Int) (s : List Char) (before : List Int) (n : Nat)
    (h : s.length ≤ n) :
    (s.zipIdx before.length).foldl (fun ps x => ps.set x.2 (f x.1))
        (before ++ List.replicate n 0) =
      before ++ s.map f ++ List.replicate (n - s.length) 0 := by
  induction s generalizing before n with
  | nil => simp
  | cons c s ih =>
      obtain ⟨n, rfl⟩ : ∃ m, n = m + 1 := Nat.exists_eq_add_of_le' (by simp at h; omega)
      have hset : (before ++ List.replicate (n + 1) 0).set before.length (f c) =
          (before ++ [f c]) ++ List.replicate n 0 := by
        simp [List.set_append_right, List.replicate_succ]
      have hih := ih (before ++ [f c]) n (by simp at h; omega)
      rw [List.zipIdx_cons, List.foldl_cons, hset]
      simp at hih ⊢
      exact hih

theorem bytes_eq {ns : List Int} (h : ∀ n ∈ ns, 0 ≤ n ∧ n < 256) :
    bytes ns = some (ns.map fun n => UInt8.ofNat n.toNat) := by
  rw [bytes, if_pos h]

theorem textToPokestr_eq {s : List Char} (h : Encodable s) :
    textToPokestr s = some (pokestr s) := by
  obtain ⟨hlength, hcodes⟩ := h
  have hfold := foldl_set (fun c => c.toNat + pokeTextOfs) s [] (pokeTextMaxLen + 1) (by omega)
  have hleft : pokeTextMaxLen + 1 - s.length = pokeTextMaxLen - s.length + 1 := by omega
  rw [List.nil_append, List.nil_append, List.length_nil, hleft] at hfold
  rw [textToPokestr, if_neg (by omega), hfold, List.replicate_succ]
  dsimp only
  rw [List.set_append_right _ _ (by simp)]
  simp only [List.length_map, Nat.sub_self, List.set_cons_zero]
  rw [bytes_eq]
  · simp [pokestr, characterCode, pokeTextTerminator]
  · intro n hn
    simp only [List.mem_append, List.mem_map, List.mem_cons, List.mem_replicate] at hn
    rcases hn with ⟨c, hc, rfl⟩ | rfl | ⟨_, rfl⟩
    · have hcode := hcodes c hc
      unfold pokeTextOfs at hcode ⊢
      omega
    · decide
    · decide

/-! ## The party -/

theorem addAll_eq (t : Trainer) (pokemon : List Pokemon) :
    t.addAll pokemon = { t with
      partyPokemon := t.partyPokemon ++
        pokemon.take (maxPartyPokemon + 1 - t.partyPokemon.length) } := by
  induction pokemon generalizing t with
  | nil => simp [Trainer.addAll]
  | cons p pokemon ih =>
      have hcons : t.addAll (p :: pokemon) = ((t.addPartyPokemon p).getD t).addAll pokemon := rfl
      rw [hcons, ih, Trainer.addPartyPokemon]
      split
      · rename_i hfull
        have hnone : maxPartyPokemon + 1 - t.partyPokemon.length = 0 := by omega
        simp [hnone]
      · rename_i hroom
        obtain ⟨n, hn⟩ : ∃ n, maxPartyPokemon + 1 - t.partyPokemon.length = n + 1 :=
          Nat.exists_eq_add_of_le' (by omega)
        have hn' : maxPartyPokemon + 1 - (t.partyPokemon.length + 1) = n := by omega
        simp [hn, hn']

/-! ## The block -/

/-- Where the games find the parts of a block. -/
structure Block (t : Trainer) (bs : List Byte) : Prop where
  length : bs.length = 422
  preamble : slice bs 0 7 = List.replicate 7 0xFD
  name : slice bs 7 11 = pokestr t.name
  size : slice bs 18 1 = [UInt8.ofNat t.partyPokemon.length]
  species : ∀ i mon, t.partyPokemon[i]? = some mon → field bs (19 + i) 1 = mon.id
  terminated : ∀ i, t.partyPokemon.length ≤ i → i < 7 → slice bs (19 + i) 1 = [0xFF]
  pokemon : ∀ i mon, t.partyPokemon[i]? = some mon →
    mon.serialize = some (slice bs (26 + 44 * i) 44)
  noPokemon : ∀ i, t.partyPokemon.length ≤ i → i < 6 →
    slice bs (26 + 44 * i) 44 = List.replicate 44 0
  trainers : ∀ i < 6, slice bs (290 + 11 * i) 11 =
    pokestr (if i < t.partyPokemon.length then t.name else [])
  nicknames : ∀ i < 6, slice bs (356 + 11 * i) 11 =
    pokestr ((t.partyPokemon[i]?.map fun mon => mon.name).getD [])

/-- The party has a place in the block, and each part is at its offset. -/
structure LaidOut (t : Trainer) : Prop where
  party : t.partyPokemon.length ≤ maxPartyPokemon
  block : ∃ bs, t.serialize = some bs ∧ Block t bs

/-- The numbers and the name can be serialized. -/
def Pokemon.Valid (p : Pokemon) : Prop := p.Fits ∧ Encodable p.name

instance (p : Pokemon) : Decidable p.Valid := inferInstanceAs (Decidable (_ ∧ _))

section Block

variable {t : Trainer}

theorem inWidth_id {s : Stats} (h : s.Fits) : InWidth 1 s.id :=
  (List.forall₂_iff_get.mp h).2 0 (by decide) (by simp [Stats.values])

/-- The serialization of a Pokemon that can be serialized. -/
def Pokemon.serialized (p : Pokemon) : List Byte := p.serialize.getD []

theorem Pokemon.serialize_eq_some {p : Pokemon} (h : p.Valid) :
    p.serialize = some p.serialized ∧ p.serialized.length = 44 := by
  obtain ⟨bs, hbs, hlength⟩ := serialize_of_fits h.1
  have hserialized : p.serialized = bs := by rw [Pokemon.serialized, hbs, Option.getD_some]
  rw [hserialized]
  exact ⟨hbs, hlength⟩

/-- The rows of a part, with those of the empty slots. -/
def rows (t : Trainer) (row : Pokemon → List Byte) (empty : List Byte) : List (List Byte) :=
  t.partyPokemon.map row ++ List.replicate (maxPartyPokemon - t.partyPokemon.length) empty

def speciesList (t : Trainer) : List Byte :=
  t.partyPokemon.map (fun mon => UInt8.ofNat mon.id.toNat) ++
    List.replicate (maxPartyPokemon - t.partyPokemon.length + 1) 0xFF

def segments (t : Trainer) : List (List Byte) :=
  [List.replicate 7 0xFD, pokestr t.name, [UInt8.ofNat t.partyPokemon.length], speciesList t,
    (rows t Pokemon.serialized (List.replicate 44 0)).flatten,
    (rows t (fun _ => pokestr t.name) (pokestr [])).flatten,
    (rows t (fun mon => pokestr mon.name) (pokestr [])).flatten]

theorem mapM_eq_some {α β : Type*} {f : α → Option β} {g : α → β} {l : List α}
    (h : ∀ a ∈ l, f a = some (g a)) : l.mapM f = some (l.map g) := by
  induction l with
  | nil => rfl
  | cons a l ih =>
      have hrest := ih fun b hb => h b (List.mem_cons_of_mem a hb)
      simp [List.mapM_cons, h a List.mem_cons_self, hrest]

theorem bytes_species (hvalid : ∀ p ∈ t.partyPokemon, p.Valid) (n : Nat) :
    bytes (t.partyPokemon.map (fun mon => mon.id) ++ List.replicate n pokeListTerminator) =
      some (t.partyPokemon.map (fun mon => UInt8.ofNat mon.id.toNat) ++
        List.replicate n 0xFF) := by
  rw [bytes_eq]
  · simp [Function.comp_def, pokeListTerminator]
  · intro n hn
    simp only [List.mem_append, List.mem_map, List.mem_replicate] at hn
    rcases hn with ⟨mon, hmon, rfl⟩ | ⟨_, rfl⟩
    · exact inWidth_id (hvalid mon hmon).1
    · decide

theorem serialize_segments (hname : Encodable t.name) (hvalid : ∀ p ∈ t.partyPokemon, p.Valid)
    (hsize : t.partyPokemon.length ≤ maxPartyPokemon) :
    t.serialize = some (segments t).flatten := by
  have hpreamble : bytes (List.replicate 7 preambleValue) = some (List.replicate 7 0xFD) := rfl
  have hlength : bytes [(t.partyPokemon.length : Int)] =
      some [UInt8.ofNat t.partyPokemon.length] := by
    refine bytes_eq fun n hn => ?_
    rw [List.mem_singleton.mp hn]
    unfold maxPartyPokemon at hsize
    omega
  have hempty : textToPokestr [] = some (pokestr []) := textToPokestr_eq (by decide)
  have hpokemon : t.partyPokemon.mapM (fun mon => mon.serialize) =
      some (t.partyPokemon.map Pokemon.serialized) :=
    mapM_eq_some fun p hp => (Pokemon.serialize_eq_some (hvalid p hp)).1
  have htrainers : t.partyPokemon.mapM (fun _ => textToPokestr t.name) =
      some (t.partyPokemon.map fun _ => pokestr t.name) :=
    mapM_eq_some fun _ _ => textToPokestr_eq hname
  have hnicknames : t.partyPokemon.mapM (fun mon => textToPokestr mon.name) =
      some (t.partyPokemon.map fun mon => pokestr mon.name) :=
    mapM_eq_some fun p hp => textToPokestr_eq (hvalid p hp).2
  have hslots : ((maxPartyPokemon : Int) - t.partyPokemon.length).toNat =
      maxPartyPokemon - t.partyPokemon.length := by omega
  have hspecies : ((maxPartyPokemon : Int) - t.partyPokemon.length + 1).toNat =
      maxPartyPokemon - t.partyPokemon.length + 1 := by omega
  simp only [Trainer.serialize, hpreamble, hlength, bytes_species hvalid, hpokemon, htrainers,
    hnicknames, hempty, hspecies, Option.bind_eq_bind, Option.bind_some]
  rw [textToPokestr_eq hname, Option.bind_some]
  simp only [segments, rows, speciesList, Trainer.times, serializedLen, hslots,
    List.flatten_cons, List.flatten_nil, List.flatten_append, List.append_assoc, List.append_nil]

theorem length_rows (row : Pokemon → List Byte) (empty : List Byte)
    (hsize : t.partyPokemon.length ≤ maxPartyPokemon) : (rows t row empty).length = 6 := by
  simp only [rows, List.length_append, List.length_map, List.length_replicate]
  unfold maxPartyPokemon at hsize ⊢
  omega

theorem length_of_mem_rows {row : Pokemon → List Byte} {empty r : List Byte} {w : Nat}
    (hrow : ∀ p ∈ t.partyPokemon, (row p).length = w) (hempty : empty.length = w)
    (hr : r ∈ rows t row empty) : r.length = w := by
  rcases List.mem_append.mp hr with hr | hr
  · obtain ⟨p, hp, rfl⟩ := List.mem_map.mp hr
    exact hrow p hp
  · rw [List.eq_of_mem_replicate hr, hempty]

theorem getElem?_rows {row : Pokemon → List Byte} {empty : List Byte} {i : Nat} (hi : i < 6)
    (hsize : t.partyPokemon.length ≤ maxPartyPokemon) :
    (rows t row empty)[i]? = some ((t.partyPokemon[i]?.map row).getD empty) := by
  have hlt : i < (t.partyPokemon.map row).length + (maxPartyPokemon - t.partyPokemon.length) := by
    unfold maxPartyPokemon at hsize ⊢
    rw [List.length_map]
    omega
  rw [rows, getElem?_append_replicate empty hlt, List.getElem?_map]

/-- A part with a row for each slot. -/
theorem slice_rows {bs : List Byte} {row : Pokemon → List Byte} {empty : List Byte}
    {offset w i : Nat} (hi : i < 6) (hsize : t.partyPokemon.length ≤ maxPartyPokemon)
    (hrow : ∀ p ∈ t.partyPokemon, (row p).length = w) (hempty : empty.length = w)
    (hpart : slice bs offset (w * 6) = (rows t row empty).flatten) :
    slice bs (offset + w * i) w = (t.partyPokemon[i]?.map row).getD empty := by
  have hrows : ∀ r ∈ rows t row empty, r.length = w := fun r hr => length_of_mem_rows hrow hempty hr
  have hend : w * i + w ≤ w * 6 := by
    rw [← Nat.mul_succ]
    exact Nat.mul_le_mul_left w hi
  rw [← slice_slice hend, hpart]
  exact slice_flatten hrows (getElem?_rows hi hsize)

def segmentLengths : List Nat := [7, 11, 1, 7, 264, 66, 66]

theorem length_segments (hname : Encodable t.name) (hvalid : ∀ p ∈ t.partyPokemon, p.Valid)
    (hsize : t.partyPokemon.length ≤ maxPartyPokemon) :
    (segments t).map List.length = segmentLengths := by
  have hrows (row : Pokemon → List Byte) (empty : List Byte) (w : Nat)
      (hrow : ∀ p ∈ t.partyPokemon, (row p).length = w) (hempty : empty.length = w) :
      (rows t row empty).flatten.length = w * 6 := by
    rw [length_flatten_of_rows fun r hr => length_of_mem_rows hrow hempty hr,
      length_rows row empty hsize]
  have hspecies : (speciesList t).length = 7 := by
    simp only [speciesList, List.length_append, List.length_map, List.length_replicate]
    unfold maxPartyPokemon at hsize ⊢
    omega
  have hnone : (pokestr []).length = 11 := rfl
  simp only [segments, segmentLengths, List.map_cons, List.map_nil, List.length_replicate,
    length_pokestr hname.1, List.length_singleton, hspecies,
    hrows _ _ 44 (fun p hp => (Pokemon.serialize_eq_some (hvalid p hp)).2) List.length_replicate,
    hrows _ _ 11 (fun _ _ => length_pokestr hname.1) hnone,
    hrows _ _ 11 (fun p hp => length_pokestr (hvalid p hp).2.1) hnone]

theorem slice_segment {i offset w : Nat} {segment : List Byte}
    (hlengths : (segments t).map List.length = segmentLengths)
    (hsegment : (segments t)[i]? = some segment) (hoffset : (segmentLengths.take i).sum = offset)
    (hw : segmentLengths[i]? = some w) : slice (segments t).flatten offset w = segment := by
  have hlength : segment.length = w := by
    rw [← hlengths, List.getElem?_map, hsegment] at hw
    simpa using hw
  have hslice := slice_segments hsegment
  rwa [List.map_take, hlengths, hoffset, hlength] at hslice

theorem getElem?_species {i : Nat} (hi : i < 7) (hsize : t.partyPokemon.length ≤ maxPartyPokemon) :
    (speciesList t)[i]? = some ((t.partyPokemon[i]?.map fun mon => UInt8.ofNat mon.id.toNat).getD
      0xFF) := by
  have hlt : i < (t.partyPokemon.map fun mon => UInt8.ofNat mon.id.toNat).length +
      (maxPartyPokemon - t.partyPokemon.length + 1) := by
    unfold maxPartyPokemon at hsize ⊢
    rw [List.length_map]
    omega
  rw [speciesList, getElem?_append_replicate 0xFF hlt, List.getElem?_map]

theorem block_segments (hname : Encodable t.name) (hvalid : ∀ p ∈ t.partyPokemon, p.Valid)
    (hsize : t.partyPokemon.length ≤ maxPartyPokemon) : Block t (segments t).flatten := by
  have hlengths := length_segments hname hvalid hsize
  have hspecies {i : Nat} (hi : i < 7) : slice (segments t).flatten (19 + i) 1 =
      [(t.partyPokemon[i]?.map fun mon => UInt8.ofNat mon.id.toNat).getD 0xFF] := by
    have hlist : slice (segments t).flatten 19 7 = speciesList t :=
      slice_segment hlengths (i := 3) rfl rfl rfl
    rw [← slice_slice (Nat.succ_le_of_lt hi), hlist]
    exact slice_one (getElem?_species hi hsize)
  have hlt {i : Nat} {mon : Pokemon} (hmon : t.partyPokemon[i]? = some mon) : i < 6 := by
    have := (List.getElem?_eq_some_iff.mp hmon).1
    unfold maxPartyPokemon at hsize
    omega
  have hpokemon {i : Nat} (hi : i < 6) : slice (segments t).flatten (26 + 44 * i) 44 =
      (t.partyPokemon[i]?.map Pokemon.serialized).getD (List.replicate 44 0) := by
    apply slice_rows hi hsize
    · exact fun p hp => (Pokemon.serialize_eq_some (hvalid p hp)).2
    · exact List.length_replicate
    · exact slice_segment hlengths (i := 4) rfl rfl rfl
  have hempty : (pokestr []).length = 11 := rfl
  constructor
  · rw [List.length_flatten, hlengths]
    rfl
  · exact slice_segment hlengths (i := 0) rfl rfl rfl
  · exact slice_segment hlengths (i := 1) rfl rfl rfl
  · exact slice_segment hlengths (i := 2) rfl rfl rfl
  · intro i mon hmon
    have hi : i < 7 := Nat.lt_succ_of_lt (hlt hmon)
    obtain ⟨hpos, hbyte⟩ := inWidth_id (hvalid mon (List.mem_of_getElem? hmon)).1
    have hid : mon.id.toNat < 256 := by omega
    rw [field, hspecies hi, hmon]
    simp [decode, Nat.mod_eq_of_lt hid, hpos]
  · intro i hend hi
    rw [hspecies hi, List.getElem?_eq_none hend]
    rfl
  · intro i mon hmon
    rw [hpokemon (hlt hmon), hmon]
    exact (Pokemon.serialize_eq_some (hvalid mon (List.mem_of_getElem? hmon))).1
  · intro i hend hi
    rw [hpokemon hi, List.getElem?_eq_none hend]
    rfl
  · intro i hi
    have hpart : slice (segments t).flatten 290 (11 * 6) =
        (rows t (fun _ => pokestr t.name) (pokestr [])).flatten :=
      slice_segment hlengths (i := 5) rfl rfl rfl
    rw [slice_rows hi hsize (fun _ _ => length_pokestr hname.1) hempty hpart]
    by_cases hmember : i < t.partyPokemon.length
    · simp [hmember]
    · simp [hmember]
  · intro i hi
    have hpart : slice (segments t).flatten 356 (11 * 6) =
        (rows t (fun mon => pokestr mon.name) (pokestr [])).flatten :=
      slice_segment hlengths (i := 6) rfl rfl rfl
    rw [slice_rows hi hsize (fun p hp => length_pokestr (hvalid p hp).2.1) hempty hpart]
    cases t.partyPokemon[i]? <;> rfl

end Block

/-! ## The contract -/

/-- The block of a trainer with a name and a party that can be serialized, whatever calls
of `add_party_pokemon` were made, is laid out as it should be if and only if there were at
most six of them. -/
theorem laidOut_iff {name : List Char} {pokemon : List Pokemon} (hname : Encodable name)
    (hvalid : ∀ p ∈ pokemon, p.Valid) :
    LaidOut (({ name := name } : Trainer).addAll pokemon) ↔
      pokemon.length ≤ maxPartyPokemon := by
  have hparty := addAll_eq { name := name } pokemon
  rw [List.nil_append, List.length_nil, Nat.sub_zero] at hparty
  rw [hparty]
  constructor
  · intro hlaidOut
    have hle := hlaidOut.party
    rw [List.length_take] at hle
    omega
  · intro hsize
    rw [List.take_of_length_le (by omega)]
    exact ⟨hsize, _, serialize_segments hname hvalid hsize, block_segments hname hvalid hsize⟩

/-- The trainer of the trade tool, with three different Pokemon. -/
theorem laidOut_matt :
    LaidOut (({ name := ['M', 'a', 't', 't'] } : Trainer).addAll
      [mew, pikachu, { pikachu with id := 0x99, hp := 0, level := 5, name := ['I', 'V', 'Y'] }]) :=
  (laidOut_iff (by decide) (by decide)).mpr (by decide)

/-- A seventh Pokemon is accepted, and the block is longer. -/
theorem seventh_accepted :
    ¬LaidOut (({ name := [] } : Trainer).addAll (List.replicate 7 mew)) ∧
      (({ name := [] } : Trainer).addAll (List.replicate 7 mew)).serialize.map List.length =
        some 488 := by
  refine ⟨fun hlaidOut => ?_, by decide +kernel⟩
  exact absurd hlaidOut.party (by decide)

end GbPlay.Tools.PokemonData
