import DhKit.JsonRpc

/-!
# The strings of a JSON value

A value is a tree whose leaves may be strings.
-/
namespace DhKit.JsonRpc
open List
namespace Json

section
variable (f : String → String → String)

mutual
def mapStrings (key : String) : Json → Json
 | .string text => .string (f key text)
 | .array items => .array (mapItems key items)
 | .object fields => .object (mapFields fields)
 | .null => .null
 | .bool value => .bool value
 | .unsigned value => .unsigned value
 | .number text => .number text
def mapItems (key : String) : List Json → List Json
 | [] => []
 | item::items => mapStrings key item::mapItems key items
def mapFields : List (String × Json) → List (String × Json)
 | [] => []
 | (key,value)::fields => (key,mapStrings key value)::mapFields fields
end

end

/-- A string of the value, with the keys above it, the outermost first. -/
inductive StringAt : List String → String → Json → Prop where
 | string (text : String) : StringAt [] text (.string text)
 | item {keys : List String} {text : String} {item : Json} {items : List Json}
  (hitem : item ∈ items) (h : StringAt keys text item) : StringAt keys text (.array items)
 | field {keys : List String} {text key : String} {value : Json}
  {fields : List (String × Json)} (hfield : (key,value) ∈ fields)
  (h : StringAt keys text value) : StringAt (key::keys) text (.object fields)

/-- The key of the field that a string is in, when the value as a whole is in the field `key`. -/
def keyAbove (key : String) : List String → String
 | [] => key
 | inner::keys => keyAbove inner keys

def shape (value : Json) : Json := value.mapStrings (fun _ _ => "") ""

section
variable {motive : Json → Prop} (null : motive .null) (bool : ∀ value,motive (.bool value))
 (unsigned : ∀ value,motive (.unsigned value)) (number : ∀ text,motive (.number text))
 (string : ∀ text,motive (.string text))
 (array : ∀ items,(∀ item ∈ items,motive item) → motive (.array items))
 (object : ∀ fields : List (String × Json),(∀ field ∈ fields,motive field.2) →
  motive (.object fields))

include null bool unsigned number string array object in
@[elab_as_elim] theorem inductOn (value : Json) : motive value := by
 refine @Json.rec motive (fun items=>∀item∈items,motive item)
  (fun fields=>∀field∈fields,motive field.2) (fun field=>motive field.2)
  null bool unsigned number string array object ?_ ?_ ?_ ?_ ?_ value
 · intro item hitem
   cases hitem
 · intro first items hf hi item hitem
   rcases mem_cons.mp hitem with rfl|hitem
   · exact hf
   · exact hi item hitem
 · intro field hfield
   cases hfield
 · intro first fields hf hfi field hfield
   rcases mem_cons.mp hfield with rfl|hfield
   · exact hf
   · exact hfi field hfield
 · intro key value hvalue
   exact hvalue

end

section
variable {f g : String → String → String} {key : String}

theorem mapItems_eq (items : List Json) : mapItems f key items=items.map (mapStrings f key) := by
 induction items with
 | nil => rfl
 | cons item items ih => rw [mapItems,map_cons,ih]

theorem mapFields_eq (fields : List (String × Json)) :
 mapFields f fields=fields.map fun field=>(field.1,mapStrings f field.1 field.2) := by
 induction fields with
 | nil => rfl
 | cons field fields ih =>
  rw [mapFields,map_cons,ih]

@[simp] theorem mapStrings_array (items : List Json) :
 mapStrings f key (.array items) = .array (items.map (mapStrings f key)) := by
 rw [mapStrings,mapItems_eq]

@[simp] theorem mapStrings_object (fields : List (String × Json)) :
 mapStrings f key (.object fields) =
  .object (fields.map fun field=>(field.1,mapStrings f field.1 field.2)) := by
 rw [mapStrings,mapFields_eq]

section
variable {keys : List String} {text : String} {value : Json}

@[simp] theorem stringAt_string {other : String} :
 StringAt keys text (.string other) ↔ keys=[] ∧ text=other := by
 constructor
 · intro h
   cases h
   exact ⟨rfl,rfl⟩
 · rintro ⟨rfl,rfl⟩
   exact .string _

@[simp] theorem stringAt_array {items : List Json} :
 StringAt keys text (.array items) ↔ ∃item∈items,StringAt keys text item := by
 constructor
 · rintro (_|⟨hitem,h⟩)
   exact ⟨_,hitem,h⟩
 · rintro ⟨item,hitem,h⟩
   exact .item hitem h

@[simp] theorem stringAt_object {fields : List (String × Json)} :
 StringAt keys text (.object fields) ↔
  ∃field∈fields,∃inner,keys=field.1::inner ∧ StringAt inner text field.2 := by
 constructor
 · rintro (_|_|⟨hfield,h⟩)
   exact ⟨_,hfield,_,rfl,h⟩
 · rintro ⟨field,hfield,inner,rfl,h⟩
   exact .field hfield h

theorem stringAt_mapStrings : StringAt keys text (mapStrings f key value) ↔
 ∃before,StringAt keys before value ∧ text=f (keyAbove key keys) before := by
 induction value using Json.inductOn generalizing keys key with
 | string before =>
  rw [mapStrings,stringAt_string]
  constructor
  · rintro ⟨rfl,rfl⟩
    exact ⟨before,.string before,rfl⟩
  · rintro ⟨_,h,rfl⟩
    cases h
    exact ⟨rfl,rfl⟩
 | array items ih =>
  rw [mapStrings_array]
  simp only [stringAt_array,mem_map]
  constructor
  · rintro ⟨_,⟨item,hitem,rfl⟩,h⟩
    obtain ⟨before,hb,htext⟩:=(ih item hitem).mp h
    exact ⟨before,⟨item,hitem,hb⟩,htext⟩
  · rintro ⟨before,⟨item,hitem,h⟩,htext⟩
    exact ⟨_,⟨item,hitem,rfl⟩,(ih item hitem).mpr ⟨before,h,htext⟩⟩
 | object fields ih =>
  rw [mapStrings_object]
  simp only [stringAt_object,mem_map]
  constructor
  · rintro ⟨_,⟨field,hfield,rfl⟩,inner,rfl,h⟩
    obtain ⟨before,hb,htext⟩:=(ih field hfield).mp h
    exact ⟨before,⟨field,hfield,inner,rfl,hb⟩,htext⟩
  · rintro ⟨before,⟨field,hfield,inner,rfl,h⟩,htext⟩
    exact ⟨_,⟨field,hfield,rfl⟩,inner,rfl,(ih field hfield).mpr ⟨before,h,htext⟩⟩
 | _ =>
  constructor
  · rintro ⟨⟩
  · rintro ⟨_,⟨⟩,_⟩

theorem mapStrings_eq_iff : mapStrings f key value=mapStrings g key value ↔
 ∀keys text,StringAt keys text value →
  f (keyAbove key keys) text=g (keyAbove key keys) text := by
 induction value using Json.inductOn generalizing key with
 | string text =>
  rw [mapStrings,mapStrings,Json.string.injEq]
  constructor
  · intro h keys before hat
    cases hat
    exact h
  · intro h
    exact h [] text (.string text)
 | array items ih =>
  rw [mapStrings_array,mapStrings_array,Json.array.injEq,map_inj_left]
  constructor
  · intro h keys text hat
    cases hat with
    | item hitem hat => exact (ih _ hitem).mp (h _ hitem) keys text hat
  · intro h item hitem
    exact (ih item hitem).mpr fun keys text hat=>h keys text (.item hitem hat)
 | object fields ih =>
  rw [mapStrings_object,mapStrings_object,Json.object.injEq,map_inj_left]
  constructor
  · intro h keys text hat
    cases hat with
    | field hfield hat => exact (ih _ hfield).mp (Prod.mk.inj (h _ hfield)).2 _ text hat
  · intro h field hfield
    exact Prod.ext rfl ((ih field hfield).mpr fun keys text hat=>
     h (field.1::keys) text (.field hfield hat))
 | _ =>
  refine ⟨fun _ keys text hat=>?_,fun _=>rfl⟩
  cases hat

end

theorem mapStrings_mapStrings (value : Json) : mapStrings g key (mapStrings f key value) =
 mapStrings (fun key text=>g key (f key text)) key value := by
 induction value using Json.inductOn generalizing key with
 | array items ih =>
  rw [mapStrings_array,mapStrings_array,mapStrings_array,map_map]
  exact congrArg Json.array (map_inj_left.mpr fun item hitem=>ih item hitem)
 | object fields ih =>
  rw [mapStrings_object,mapStrings_object,mapStrings_object,map_map]
  exact congrArg Json.object (map_inj_left.mpr fun field hfield=>
   Prod.ext rfl (ih field hfield))
 | _ => rfl

theorem mapStrings_id (value : Json) : mapStrings (fun _ text=>text) key value=value := by
 induction value using Json.inductOn generalizing key with
 | array items ih =>
  rw [mapStrings_array,map_congr_left fun item hitem=>ih item hitem,map_id']
 | object fields ih =>
  have hsa:∀field∈fields,(field.1,mapStrings (fun _ text=>text) field.1 field.2) =
   field := fun field hfield=>Prod.ext rfl (ih field hfield)
  rw [mapStrings_object,map_congr_left hsa,map_id']
 | _ => rfl

end

end Json

end DhKit.JsonRpc
