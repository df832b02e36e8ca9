import DhKit.SeparatedText
import DhKit.VectorTables

/-!
# The names of the vec0 tables

Each scope has its table, and the extension puts shadow tables beside it.
-/
namespace DhKit.Vectors
open SeparatedText List

def vectorIndexTablePrefix : String := "vector_index_vec0"

def hexDigit (n : Nat) : Char := "0123456789abcdef".toList.getD n '0'

def hexPair (byte : UInt8) : List Char :=
 [hexDigit (byte >>> 4).toNat,hexDigit (byte &&& 0x0f).toNat]

def hexEncodeIdentifierComponent (bytes : List UInt8) : String :=
 if bytes = [] then "empty" else String.ofList (bytes.flatMap hexPair)

def vec0TableName (σ : Scope) : String :=
 vectorIndexTablePrefix ++ "_" ++ toString σ.workspaceId ++ "_" ++ toString σ.dimensions ++ "_m" ++
  hexEncodeIdentifierComponent σ.model.toByteArray.data.toList

/-- `LIKE`: an underscore stands for one character, a percent sign for any text, and letters for
their other case. -/
def like : List Char → List Char → Bool
 | [],text => text = []
 | p::pattern,text =>
  if p = '%' then text.tails.any (like pattern)
  else
   match text with
   | [] => false
   | c :: text => (p = '_' ∨ p.toLower = c.toLower) && like pattern text

/-- A row of `sqlite_master`. -/
structure SchemaRow where
 type : String
 name : String

def shadowSuffixes : List String :=
 ["_info","_chunks","_rowids","_auxiliary","_vector_chunks00"]

def vec0TableNames (schema : List SchemaRow) : List String :=
 ((schema.filter fun row => row.type = "table" ∧
  like (vectorIndexTablePrefix ++ "_%").toList row.name.toList).map SchemaRow.name).filter
   fun name =>
   (vectorIndexTablePrefix ++ "_").toList <+: name.toList ∧
    ∀ suffix ∈ shadowSuffixes,¬ suffix.toList <:+ name.toList

theorem hexDigit_inj : ∀m < 16,∀n < 16,hexDigit m=hexDigit n → m=n := by decide

theorem hexDigit_ne : ∀n < 16,hexDigit n ≠ '_' ∧ hexDigit n ≠ 'm' := by decide

theorem hexPair_eq (byte : UInt8) :
 hexPair byte=[hexDigit (byte.toNat/16),hexDigit (byte.toNat%16)] := by
 have hl:=Nat.and_two_pow_sub_one_eq_mod byte.toNat 4
 simp_all [hexPair,Nat.shiftRight_eq_div_pow]

theorem hexPair_injective : Function.Injective hexPair := by
 intro a b h
 have ha:=a.toNat_lt
 have hb:=b.toNat_lt
 simp only [hexPair_eq,cons.injEq,and_true] at h
 have hh:=hexDigit_inj _ (by omega) _ (by omega) h.1
 have hl:=hexDigit_inj _ (by omega) _ (by omega) h.2
 exact UInt8.toNat_inj.mp (by omega)

theorem hex_ne {bytes : List UInt8} {c : Char} (h:c∈bytes.flatMap hexPair) :
 c ≠ '_' ∧ c ≠ 'm' := by
 obtain ⟨byte,-,hc⟩:=mem_flatMap.mp h
 have hlt:=byte.toNat_lt
 rw [hexPair_eq,mem_pair] at hc
 rcases hc with rfl|rfl
 · exact hexDigit_ne _ (by omega)
 · exact hexDigit_ne _ (by omega)

theorem hexEncodeIdentifierComponent_injective :
 Function.Injective hexEncodeIdentifierComponent := by
 have hem:∀bytes : List UInt8,String.ofList (bytes.flatMap hexPair) ≠ "empty" := by
  intro bytes h
  have hl:bytes.flatMap hexPair = "empty".toList := by rw [←h,String.toList_ofList]
  exact (hex_ne (hl ▸ by decide : 'm' ∈ bytes.flatMap hexPair)).2 rfl
 have hby:∀as bs : List UInt8,as.flatMap hexPair=bs.flatMap hexPair → as=bs:=by
  intro as
  induction as with
  | nil =>
   intro bs h
   cases bs with
   | nil => rfl
   | cons b bs => simp [hexPair] at h
  | cons a as ih =>
   intro bs h
   cases bs with
   | nil => simp [hexPair] at h
   | cons b bs =>
    obtain ⟨hp,hr⟩:=append_inj h rfl
    rw [hexPair_injective hp,ih bs hr]
 intro as bs h
 unfold hexEncodeIdentifierComponent at h
 split_ifs at h with ha hb hb
 · rw [ha,hb]
 · exact absurd h.symm (hem bs)
 · exact absurd h (hem as)
 · exact hby as bs (String.ofList_injective h)

theorem underscore_not_mem_hex (bytes : List UInt8) :
 '_' ∉ 'm' :: (hexEncodeIdentifierComponent bytes).toList := by
 unfold hexEncodeIdentifierComponent
 split_ifs
 · decide
 · rw [String.toList_ofList,mem_cons,not_or]
   exact ⟨by decide,fun h=>(hex_ne h).1 rfl⟩

theorem toList_vec0TableName (σ : Scope) : (vec0TableName σ).toList =
 (vectorIndexTablePrefix.toList ++ '_' :: (toString σ.workspaceId).toList ++
  '_' :: (toString σ.dimensions).toList) ++
   '_' :: 'm' :: (hexEncodeIdentifierComponent σ.model.toByteArray.data.toList).toList := by
 simp [vec0TableName]

theorem vec0TableName_injective : Function.Injective vec0TableName := by
 intro σ τ h
 have hn:=congrArg String.toList h
 rw [toList_vec0TableName,toList_vec0TableName] at hn
 obtain ⟨hf,hco⟩:=last_separator_inj (underscore_not_mem_hex _) (underscore_not_mem_hex _)
  hn
 obtain ⟨hf,hdi⟩:=last_separator_inj (not_mem_natText (by decide) _)
  (not_mem_natText (by decide) _) hf
 obtain ⟨-,hwo⟩:=last_separator_inj (not_mem_intText (by decide) (by decide) _)
  (not_mem_intText (by decide) (by decide) _) hf
 have hb:=hexEncodeIdentifierComponent_injective (String.toList_inj.mp (cons.inj hco).2)
 have hmo:σ.model=τ.model:=
  String.toByteArray_inj.mp (ByteArray.ext (Array.toList_inj.mp hb))
 cases σ
 cases τ
 simp only [Scope.mk.injEq]
 exact ⟨intText_injective (String.toList_inj.mp hwo),hmo,
  natText_injective (String.toList_inj.mp hdi)⟩

theorem not_shadow (σ : Scope) {suffix : String} (h:suffix∈shadowSuffixes) :
 ¬suffix.toList <:+ (vec0TableName σ).toList := by
 have hl:∃front last,suffix.toList=front ++ '_' :: last ∧ '_' ∉ last ∧
  last.head? ≠ some 'm' := by
  simp only [shadowSuffixes,mem_cons,not_mem_nil,or_false] at h
  rcases h with rfl|rfl|rfl|rfl|rfl
  · exact ⟨[],"info".toList,by decide⟩
  · exact ⟨[],"chunks".toList,by decide⟩
  · exact ⟨[],"rowids".toList,by decide⟩
  · exact ⟨[],"auxiliary".toList,by decide⟩
  · exact ⟨"_vector".toList,"chunks00".toList,by decide⟩
 obtain ⟨front,last,hsu,hno,hh⟩:=hl
 rintro ⟨before,hn⟩
 rw [hsu,←append_assoc,toList_vec0TableName] at hn
 obtain ⟨-,heq⟩:=last_separator_inj hno (underscore_not_mem_hex _) hn
 exact hh (by rw [heq]; rfl)

theorem like_of_starts {start text : List Char} (hst : '%' ∉ start) (h:start <+: text) :
 like (start ++ ['%']) text := by
 obtain ⟨rest,rfl⟩:=h
 induction start with
 | nil => simp [like]
 | cons c start ih =>
  rw [mem_cons,not_or] at hst
  simpa [like,Ne.symm hst.1] using ih hst.2

/-- The tables with the vector prefix are those of the scopes and their shadow tables. -/
def HasTables (schema : List SchemaRow) (scopes : Set Scope) : Prop :=
 ∀ name : String,⟨"table",name⟩ ∈ schema ∧
  (vectorIndexTablePrefix ++ "_").toList <+: name.toList ↔
   ∃ σ ∈ scopes,name = vec0TableName σ ∨ ∃ suffix ∈ shadowSuffixes,name = vec0TableName σ++suffix

theorem vec0Tables_isolated : Function.Injective vec0TableName ∧
 ∀ schema scopes,HasTables schema scopes →
  (∀ name,name ∈ vec0TableNames schema ↔ ∃ σ ∈ scopes,name = vec0TableName σ) ∧
  ∀ σ ∈ scopes,∀ suffix ∈ shadowSuffixes,vec0TableName σ++suffix ∉ vec0TableNames schema := by
 refine ⟨vec0TableName_injective,fun schema scopes hta=>?_⟩
 have hme:∀name,name∈vec0TableNames schema ↔ (⟨"table",name⟩∈schema ∧
  (vectorIndexTablePrefix ++ "_").toList <+: name.toList) ∧
   ∀suffix∈shadowSuffixes,¬suffix.toList <:+ name.toList := by
  intro name
  simp only [vec0TableNames,mem_filter,mem_map,decide_eq_true_eq]
  constructor
  · rintro ⟨⟨⟨type,_⟩,⟨hrow,rfl,-⟩,rfl⟩,hst,hsu⟩
    exact ⟨⟨hrow,hst⟩,hsu⟩
  · rintro ⟨⟨hrow,hst⟩,hsu⟩
    refine ⟨⟨_,⟨hrow,rfl,?_⟩,rfl⟩,hst,hsu⟩
    have hl:=like_of_starts (by decide) hst
    simpa using hl
 have hsh:∀σ∈scopes,∀suffix∈shadowSuffixes,
  vec0TableName σ++suffix ∉ vec0TableNames schema := by
  intro σ _ suffix hsu hn
  exact ((hme _).mp hn).2 suffix hsu (by simp)
 refine ⟨fun name=>⟨fun hn=>?_,?_⟩,hsh⟩
 · obtain ⟨σ,hσ,rfl|⟨suffix,hsu,rfl⟩⟩:=(hta name).mp ((hme name).mp hn).1
   · exact ⟨σ,hσ,rfl⟩
   · exact absurd hn (hsh σ hσ suffix hsu)
 · rintro ⟨σ,hσ,rfl⟩
   exact (hme _).mpr ⟨(hta _).mpr ⟨σ,hσ,.inl rfl⟩,fun _=>not_shadow σ⟩

/-- The tables of the scopes with their shadow tables, after the table of the chunks. -/
def schemaOf (scopes : List Scope) : List SchemaRow :=
 ⟨"table","chunks"⟩::scopes.flatMap fun σ =>
  (vec0TableName σ::shadowSuffixes.map (vec0TableName σ ++ ·)).map (⟨"table",·⟩)

theorem hasTables_schemaOf (scopes : List Scope) : HasTables (schemaOf scopes) {σ | σ∈scopes} := by
 intro name
 have hchunks:¬(vectorIndexTablePrefix ++ "_").toList <+: "chunks".toList:=by decide
 have hstarts:∀σ,(vectorIndexTablePrefix ++ "_").toList <+: (vec0TableName σ).toList:=
  fun σ=>by
   rw [toList_vec0TableName,String.toList_append,append_assoc,append_assoc]
   exact (prefix_append_right_inj _).mpr (cons_prefix_cons.mpr ⟨rfl, nil_prefix⟩)
 simp only [schemaOf,mem_cons,mem_flatMap,mem_map,SchemaRow.mk.injEq,true_and,Set.mem_ofPred_eq]
 constructor
 · rintro ⟨rfl|⟨σ,hσ,_,rfl|⟨suffix,hsuffix,rfl⟩,rfl⟩,hname⟩
   · exact absurd hname hchunks
   · exact ⟨σ,hσ,.inl rfl⟩
   · exact ⟨σ,hσ,.inr ⟨suffix,hsuffix,rfl⟩⟩
 · rintro ⟨σ,hσ,rfl|⟨suffix,hsuffix,rfl⟩⟩
   · exact ⟨.inr ⟨σ,hσ,_,.inl rfl,rfl⟩,hstarts σ⟩
   · refine ⟨.inr ⟨σ,hσ,_,.inr ⟨suffix,hsuffix,rfl⟩,rfl⟩,(hstarts σ).trans ?_⟩
     rw [String.toList_append]
     exact prefix_append _ _

theorem vec0Tables_isolated_two : HasTables (schemaOf [⟨1,"m",2⟩,⟨1,"",2⟩])
  {σ | σ ∈ [⟨1,"m",2⟩,⟨1,"",2⟩]} ∧
 ∀ name,name ∈ vec0TableNames (schemaOf [⟨1,"m",2⟩,⟨1,"",2⟩]) ↔
  name = "vector_index_vec0_1_2_m6d" ∨ name = "vector_index_vec0_1_2_mempty" := by
 have hm:vec0TableName ⟨1,"m",2⟩="vector_index_vec0_1_2_m6d":=by decide
 have hempty:vec0TableName ⟨1,"",2⟩="vector_index_vec0_1_2_mempty":=by decide
 have htables:=hasTables_schemaOf [⟨1,"m",2⟩,⟨1,"",2⟩]
 refine ⟨htables,fun name=>?_⟩
 rw [(vec0Tables_isolated.2 _ _ htables).1 name,←hm,←hempty]
 simp

end DhKit.Vectors
