import Mathlib.Data.List.MinMax
import Mathlib.Data.List.Sort
import DhKit.SeparatedText
import DhKit.StoredGraph

/-!
# Shortest paths over the stored edges

The recursive query enumerates paths and writes the nodes and edges of each as text, the numbers of
its nodes without their kinds.
-/
namespace DhKit.Graphs
open KeyedTables BreadthFirst SeparatedText List

def NodeId.number : NodeId → Int
 | .file id => id
 | .symbol id => id
 | .chunk id => id

structure PathRow where
 node : NodeId
 depth : Nat
 nodePath : String
 edgePath : String
deriving DecidableEq

structure GraphPath where
 start : NodeId
 stop : NodeId
 edges : List GraphEdge
 truncated : Bool
deriving DecidableEq

/-- `instr(node_path, ',' || CAST(id AS TEXT) || ',') <> 0`. -/
def onPath (nodePath : String) (id : Int) : Bool :=
 ("," ++ toString id ++ ",").toList <:+: nodePath.toList

variable (start : NodeId) {r : PathRow}

def startRow : PathRow :=
 ⟨start,0,"," ++ toString start.number ++ ",",""⟩

def appendEdge (ps : PathRow) (e : EdgeRow) : PathRow where
 node := e.edge.toNode
 depth := ps.depth+1
 nodePath := ps.nodePath ++ toString e.edge.toNode.number ++ ","
 edgePath := ps.edgePath ++ toString e.id ++ ","

/-- `ORDER BY depth ASC LIMIT 1`: any of the rows of least depth. -/
structure DepthOrder where
 first : List PathRow → Option PathRow
 first_none : ∀ rows,first rows = none → rows = []
 first_some : ∀ rows r,first rows = some r → r ∈ rows ∧ ∀ r' ∈ rows,r.depth ≤ r'.depth

def parseDigits (text : List Char) : Option Nat :=
 if text ≠ [] ∧ text.all Char.isDigit then some (Nat.ofDigitChars 10 text 0) else none

/-- `parse::<i64>`, without its range. -/
def parseId (text : List Char) : Option Int :=
 if text.head? = some '-' then (parseDigits text.tail).map fun n : Nat => -(n : Int)
 else if text.head? = some '+' then (parseDigits text.tail).map Int.ofNat
 else (parseDigits text).map Int.ofNat

namespace Database

def extendRow (db : Database) (workspaceId : Int) (maxHops : Nat) (ps : PathRow) : List PathRow :=
 ((db.edgesByWorkspace workspaceId).filter fun e =>
  e.edge.fromNode = ps.node ∧ ps.depth < maxHops ∧
   onPath ps.nodePath e.edge.toNode.number = false).map (appendEdge ps)

def pathSearch (db : Database) (workspaceId : Int) (start : NodeId) (maxHops : Nat) :
 List PathRow :=
 (List.range (maxHops+1)).flatMap (level (db.extendRow workspaceId maxHops) (startRow start))

/-- `None` when an id does not parse, where the source unwraps. -/
def parseEdgeIds (edgePath : String) : Option (List Int) :=
 ((edgePath.toList.splitOn ',').filter fun s => s ≠ []).mapM parseId

def readEdges (db : Database) (edgeIds : List Int) : List GraphEdge :=
 ((db.edges.rows.filter fun e => e.id ∈ edgeIds).insertionSort fun a b =>
  edgeIds.idxOf a.id ≤ edgeIds.idxOf b.id).map EdgeRow.edge

section
variable (db : Database) (order : DepthOrder) (workspaceId : Int) (start stop : NodeId)
 (maxHops : Nat)

/-- The outer `Option` is `none` when the parse of an id panics. -/
def cteShortestPath : Option (Option (List GraphEdge)) :=
 match order.first
  ((db.pathSearch workspaceId start maxHops).filter fun r => r.node = stop) with
 | none => some none
 | some r => (parseEdgeIds r.edgePath).map fun edgeIds =>
  if edgeIds = [] then some [] else some (db.readEdges edgeIds)

def shortestPath : Option (Option GraphPath) :=
 if start = stop then some (some ⟨start,stop,[],false⟩)
 else (db.cteShortestPath order workspaceId start stop maxHops).map fun found =>
  found.map fun edges => ⟨start,stop,edges,false⟩

end

end Database

/-- The edges lead from `a` to `b`, each leaving the node the one before entered. -/
def Chain (a : NodeId) : List EdgeRow → NodeId → Prop
 | [],b => a = b
 | e::es,b => e.edge.fromNode = a ∧ Chain e.edge.toNode es b

theorem chain_append {a b : NodeId} {es es' : List EdgeRow} :
 Chain a (es++es') b ↔ ∃c,Chain a es c ∧ Chain c es' b := by
 induction es generalizing a with
 | nil => simp [Chain]
 | cons e es ih =>
  simp only [cons_append,Chain,ih]
  constructor
  · rintro ⟨he,c,h,h'⟩
    exact ⟨c,⟨he,h⟩,h'⟩
  · rintro ⟨c,⟨he,h⟩,h'⟩
    exact ⟨he,c,h,h'⟩

section
variable (db : Database) (workspaceId : Int) (a : NodeId) (es : List EdgeRow)

structure StoredPath (b : NodeId) : Prop where
 stored : ∀ e ∈ es,e ∈ db.edgesByWorkspace workspaceId
 chain : Chain a es b

def pathNumbers : List Int :=
 a.number::es.map fun e => e.edge.toNode.number

theorem pathNumbers_append (e : EdgeRow) :
 pathNumbers a (es++[e])=pathNumbers a es++[e.edge.toNode.number] := by
 simp [pathNumbers]

end

def idText (i : Int) : List Char := (toString i).toList

theorem idText_injective : Function.Injective idText := by
 intro i j h
 exact intText_injective (String.toList_inj.mp h)

theorem comma_not_mem_idText (i : Int) : ',' ∉ idText i :=
 not_mem_intText (by decide) (by decide) i

theorem parseDigits_natText (n : Nat) : parseDigits (toString n).toList=some n := by
 have htext:(toString n).toList=Nat.toDigits 10 n:=by
  change n.repr.toList=_
  rw [Nat.repr_eq_ofList_toDigits,String.toList_ofList]
 have hall:(Nat.toDigits 10 n).all Char.isDigit=true:=
  all_eq_true.mpr fun c hc=>Nat.isDigit_of_mem_toDigits (by omega) (by omega) hc
 rw [parseDigits,htext,if_pos ⟨Nat.toDigits_ne_nil,hall⟩,Nat.ofDigitChars_ten_toDigits]

theorem parse_idText (i : Int) : parseId (idText i)=some i := by
 have hsign:∀{c : Char},c.isDigit=false → ∀n : Nat,(toString n).toList.head?≠some c:=
  fun hc n h=>not_mem_natText hc n (mem_of_mem_head? h)
 change parseId i.repr.toList=some i
 rw [Int.repr_eq_if]
 split_ifs with hi
 · change parseId (toString i.toNat).toList=some i
   rw [parseId,if_neg (hsign (by decide) _),if_neg (hsign (by decide) _),parseDigits_natText]
   simpa using hi
 · have hdash:"-".toList = ['-'] := by decide
   rw [String.toList_append,hdash,singleton_append,parseId,if_pos (by simp),tail_cons]
   change ((parseDigits (toString (-i).toNat).toList).map fun n : Nat=>-(n : Int))=some i
   rw [parseDigits_natText,Option.map_some,Int.toNat_of_nonneg (by omega),Int.neg_neg]

theorem idText_ne_nil (i : Int) : idText i≠[] := by
 change i.repr.toList≠[]
 rw [Int.repr_eq_if]
 split_ifs
 · rw [Nat.repr_eq_ofList_toDigits,String.toList_ofList]
   exact Nat.toDigits_ne_nil
 · rw [String.toList_append]
   exact append_ne_nil_of_left_ne_nil (by decide) _

variable (es : List EdgeRow)

def rowOf : PathRow := es.foldl appendEdge (startRow start)

theorem rowOf_append (e : EdgeRow) :
 rowOf start (es++[e])=appendEdge (rowOf start es) e := by
 simp [rowOf]

theorem rowOf_depth : (rowOf start es).depth=es.length := by
 induction es using List.reverseRecOn with
 | nil => rfl
 | append_singleton es e ih =>
  rw [rowOf_append,length_append]
  simp [appendEdge,ih]

theorem rowOf_node {start b : NodeId} {es : List EdgeRow} (h:Chain start es b) :
 (rowOf start es).node=b := by
 induction es using List.reverseRecOn with
 | nil => exact h
 | append_singleton es e ih =>
  obtain ⟨c,-,-,hto⟩:=chain_append.mp h
  rw [rowOf_append]
  exact hto

theorem rowOf_nodePath :
 (rowOf start es).nodePath.toList = ',' :: joined ',' ((pathNumbers start es).map idText) := by
 induction es using List.reverseRecOn with
 | nil => simp [rowOf,startRow,pathNumbers,idText]
 | append_singleton es e ih =>
  rw [rowOf_append,pathNumbers_append,map_append,joined_append]
  simp [appendEdge,ih,idText]

theorem rowOf_edgePath :
 (rowOf start es).edgePath.toList=joined ',' ((es.map EdgeRow.id).map idText) := by
 induction es using List.reverseRecOn with
 | nil => rfl
 | append_singleton es e ih =>
  rw [rowOf_append,map_append,map_append,joined_append]
  simp [appendEdge,ih,idText]

theorem onPath_rowOf (i : Int) :
 onPath (rowOf start es).nodePath i=false ↔ i ∉ pathNumbers start es := by
 have htext:("," ++ toString i ++ ",").toList = ',' :: (idText i ++ [',']) := by
  simp [idText]
 rw [onPath,decide_eq_false_iff_not,htext,rowOf_nodePath,
  infix_joined_iff (comma_not_mem_idText i),mem_map_of_injective idText_injective]
 intro u hu
 obtain ⟨j,-,rfl⟩:=mem_map.mp hu
 exact comma_not_mem_idText j

theorem mapM_parse_idText (ids : List Int) :
 (ids.map idText).mapM parseId=some ids := by
 induction ids with
 | nil => rfl
 | cons i ids ih => simp [parse_idText,ih]

theorem parseEdgeIds_rowOf :
 Database.parseEdgeIds (rowOf start es).edgePath=some (es.map EdgeRow.id) := by
 have hse:∀u∈(es.map EdgeRow.id).map idText,',' ∉ u := by
  intro u hu
  obtain ⟨i,-,rfl⟩:=mem_map.mp hu
  exact comma_not_mem_idText i
 have hto:((es.map EdgeRow.id).map idText++[[]]).filter (fun s=>s≠[]) =
  (es.map EdgeRow.id).map idText := by
  rw [filter_append,filter_eq_self.mpr]
  · simp
  · intro u hu
    obtain ⟨i,-,rfl⟩:=mem_map.mp hu
    simpa using idText_ne_nil i
 rw [Database.parseEdgeIds,rowOf_edgePath,splitOn_joined hse,hto,mapM_parse_idText]

variable {db : Database} {workspaceId : Int} {start stop : NodeId} {maxHops : Nat}

theorem mem_level_iff {n : Nat} (hn:n ≤ maxHops) :
 r∈level (db.extendRow workspaceId maxHops) (startRow start) n ↔
  ∃es,es.length=n ∧ StoredPath db workspaceId start es r.node ∧
   (pathNumbers start es).Nodup ∧ r=rowOf start es := by
 induction n generalizing r with
 | zero =>
  simp only [level,mem_singleton]
  constructor
  · rintro rfl
    exact ⟨[],rfl,⟨by simp,rfl⟩,by simp [pathNumbers],rfl⟩
  · rintro ⟨es,hes,-,-,rfl⟩
    rw [eq_nil_of_length_eq_zero hes]
    rfl
 | succ n ih =>
  simp only [level,mem_flatMap,Database.extendRow,mem_map,mem_filter,decide_eq_true_eq]
  constructor
  · rintro ⟨ps,hps,e,⟨he,hfrom,-,ho⟩,rfl⟩
    obtain ⟨es,hes,hp,hno,rfl⟩:=(ih (by omega)).mp hps
    refine ⟨es++[e],by simp [hes],⟨fun e' he'=>?_,?_⟩,?_,(rowOf_append _ _ _).symm⟩
    · rcases mem_append.mp he' with he'|he'
      · exact hp.stored e' he'
      · rw [mem_singleton.mp he']
        exact he
    · exact chain_append.mpr ⟨_,hp.chain,hfrom,rfl⟩
    rw [pathNumbers_append,nodup_append]
    refine ⟨hno,nodup_singleton _,?_⟩
    rintro x hx y hy rfl
    exact (onPath_rowOf _ _ _).mp ho (mem_singleton.mp hy ▸ hx)
  · rintro ⟨es,hes,hp,hno,rfl⟩
    -- the path before its last edge
    obtain ⟨es,e,rfl⟩ : ∃es' e,es=es'++[e] := by
     rcases eq_nil_or_concat es with rfl|⟨es',e,h⟩
     · simp at hes
     · exact ⟨es',e,by simpa using h⟩
    obtain ⟨c,hch,hfrom,hto⟩:=chain_append.mp hp.chain
    rw [pathNumbers_append,nodup_append] at hno
    have hl:es.length=n:=by simpa using hes
    have hnod:(rowOf start es).node=c:=rowOf_node hch
    refine ⟨rowOf start es,(ih (by omega)).mpr ⟨es,hl,⟨fun e' he'=>hp.stored e'
     (mem_append_left _ he'),hnod ▸ hch⟩,hno.1,rfl⟩,e,
     ⟨hp.stored e (by simp),by rw [hnod,hfrom],?_,(onPath_rowOf _ _ _).mpr fun hm=>?_⟩,
     (rowOf_append _ _ _).symm⟩
    · rw [rowOf_depth]
      omega
    · exact hno.2.2 _ hm _ (mem_singleton.mpr rfl) rfl

theorem mem_pathSearch :
 r∈db.pathSearch workspaceId start maxHops ↔
  ∃es,es.length ≤ maxHops ∧ StoredPath db workspaceId start es r.node ∧
   (pathNumbers start es).Nodup ∧ r=rowOf start es := by
 simp only [Database.pathSearch,mem_flatMap,mem_range]
 constructor
 · rintro ⟨n,hn,hr⟩
   obtain ⟨es,rfl,h⟩:=(mem_level_iff (by omega)).mp hr
   exact ⟨es,by omega,h⟩
 · rintro ⟨es,hes,h⟩
   exact ⟨es.length,by omega,(mem_level_iff hes).mpr ⟨es,rfl,h⟩⟩

theorem StoredPath.mem_rows {es : List EdgeRow}
 (h:StoredPath db workspaceId start es stop) {e : EdgeRow} (he:e∈es) :
 e∈db.edges.rows :=
 (mem_filter.mp (h.stored e he)).1

theorem StoredPath.nodup_ids {es : List EdgeRow}
 (h:StoredPath db workspaceId start es stop) (hn:(pathNumbers start es).Nodup) :
 (es.map EdgeRow.id).Nodup := by
 have hes:es.Nodup:=Nodup.of_map _ (nodup_cons.mp hn).2
 exact hes.map_on fun a ha b hb=>db.edges.row_unique (h.mem_rows ha) (h.mem_rows hb)

theorem readEdges_ids {es : List EdgeRow} (hro:∀e∈es,e∈db.edges.rows)
 (hids:(es.map EdgeRow.id).Nodup) : db.readEdges (es.map EdgeRow.id)=es.map EdgeRow.edge := by
 unfold Database.readEdges
 congr 1
 have hp:(db.edges.rows.filter fun e=>e.id∈es.map EdgeRow.id).Perm es:=by
  refine (perm_ext_iff_of_nodup ((Nodup.of_map _ db.edges.nodup).filter _)
   (Nodup.of_map _ hids)).mpr fun e=>?_
  simp only [mem_filter,decide_eq_true_eq,mem_map]
  constructor
  · rintro ⟨he,e',he',hid⟩
    exact db.edges.row_unique (hro e' he') he hid ▸ he'
  · intro he
    exact ⟨hro e he,e,he,rfl⟩
 have hso:es.Pairwise fun a b=>
  (es.map EdgeRow.id).idxOf a.id ≤ (es.map EdgeRow.id).idxOf b.id := by
  refine pairwise_iff_getElem.mpr fun i j hi hj hij=>?_
  have hidx:∀k (hk:k < es.length),(es.map EdgeRow.id).idxOf es[k].id=k:=by
   intro k hk
   have h:=hids.idxOf_getElem k (by simpa using hk)
   rwa [getElem_map] at h
  rw [hidx i hi,hidx j hj]
  omega
 refine Perm.eq_of_pairwise ?_ (pairwise_insertionSort _ _) hso
  ((perm_insertionSort _ _).trans hp)
 -- two rows of the path at one position have one id, and the ids are a key
 intro a b ha hb hab hba
 have ha':a∈es:=hp.mem_iff.mp ((perm_insertionSort _ _).mem_iff.mp ha)
 have hid:a.id=b.id:=
  (idxOf_inj (mem_map_of_mem ha')).mp (Nat.le_antisymm hab hba)
 exact db.edges.row_unique (hro a ha') (hro b hb) hid

/-- The answer is a shortest path when there is one within the bound. -/
structure ShortestAnswer (db : Database) (workspaceId : Int) (start stop : NodeId)
 (maxHops : Nat) (found : Option GraphPath) : Prop where
 isSome_iff : found.isSome ↔
  ∃ es,StoredPath db workspaceId start es stop ∧ es.length ≤ maxHops
 shortest : ∀ p,found = some p → p.start = start ∧ p.stop = stop ∧
  ∃ es,StoredPath db workspaceId start es stop ∧ p.edges = es.map EdgeRow.edge ∧
   ∀ es',StoredPath db workspaceId start es' stop → es.length ≤ es'.length

structure DistinctPath (db : Database) (workspaceId : Int) (start : NodeId) (es : List EdgeRow)
 (stop : NodeId) : Prop extends StoredPath db workspaceId start es stop where
 nodup : (pathNumbers start es).Nodup

theorem cteShortestPath_cases (order : DepthOrder) :
 (db.cteShortestPath order workspaceId start stop maxHops=some none ∧
  ∀es,DistinctPath db workspaceId start es stop → maxHops < es.length) ∨
 ∃es,DistinctPath db workspaceId start es stop ∧ es.length ≤ maxHops ∧
  db.cteShortestPath order workspaceId start stop maxHops =
   some (some (es.map EdgeRow.edge)) ∧
  ∀es',DistinctPath db workspaceId start es' stop → es.length ≤ es'.length := by
 -- a row that ends in the node, from its path
 have hrow:∀es,DistinctPath db workspaceId start es stop → es.length ≤ maxHops →
  rowOf start es ∈
   (db.pathSearch workspaceId start maxHops).filter fun r=>r.node=stop := by
  intro es hes hle
  have hno:=rowOf_node hes.chain
  exact mem_filter.mpr ⟨mem_pathSearch.mpr
   ⟨es,hle,hno ▸ hes.toStoredPath,hes.nodup,rfl⟩,by simpa using hno⟩
 cases hf : order.first
  ((db.pathSearch workspaceId start maxHops).filter fun r=>r.node=stop) with
 | none =>
  refine .inl ⟨by simp only [Database.cteShortestPath,hf],fun es hes=>?_⟩
  by_contra hle
  have hme:=hrow es hes (by omega)
  rw [order.first_none _ hf] at hme
  exact not_mem_nil hme
 | some r =>
  obtain ⟨hr,hl⟩:=order.first_some _ _ hf
  obtain ⟨hse,hst⟩:=mem_filter.mp hr
  obtain ⟨es,hle,hp,hn,rfl⟩:=mem_pathSearch.mp hse
  rw [decide_eq_true_eq] at hst
  rw [hst] at hp
  refine .inr ⟨es,⟨hp,hn⟩,hle,?_,fun es' hes'=>?_⟩
  · simp [Database.cteShortestPath,hf,parseEdgeIds_rowOf,readEdges_ids
     (fun e=>hp.mem_rows) (hp.nodup_ids hn)]
  · by_cases hle' : es'.length ≤ maxHops
    · have h:=hl _ (hrow es' hes' hle')
      rwa [rowOf_depth,rowOf_depth] at h
    · omega

/-- The answer is right exactly when each path within the bound has one no longer whose
nodes have distinct numbers. -/
theorem shortestPath_correct_iff (order : DepthOrder) (hne : start≠stop) :
 (∃ found,db.shortestPath order workspaceId start stop maxHops = some found ∧
  ShortestAnswer db workspaceId start stop maxHops found) ↔
 ∀ es,StoredPath db workspaceId start es stop → es.length ≤ maxHops →
  ∃ es',StoredPath db workspaceId start es' stop ∧ (pathNumbers start es').Nodup ∧
   es'.length ≤ es.length := by
 simp only [Database.shortestPath,if_neg hne]
 obtain ⟨hnone,hlo⟩|⟨es₀,hes₀,hlen₀,hso,hl⟩:=
  @cteShortestPath_cases db workspaceId start stop maxHops order
 · simp only [hnone,Option.map_some,Option.some.injEq,exists_eq_left']
   constructor
   · intro h es hes hlen
     exact absurd (h.isSome_iff.mpr ⟨es,hes,hlen⟩) (by simp)
   · intro h
     refine ⟨⟨by simp,?_⟩,by simp⟩
     rintro ⟨es,hes,hlen⟩
     obtain ⟨es',hes',hn,hle⟩:=h es hes hlen
     have := hlo es' ⟨hes',hn⟩
     omega
 · simp only [hso,Option.map_some,Option.some.injEq,exists_eq_left']
   constructor
   · intro h es hes hlen
     obtain ⟨-,-,es₁,-,heq,hsh⟩:=h.shortest _ rfl
     have hleng:es₀.length=es₁.length:=by simpa using congrArg List.length heq
     exact ⟨es₀,hes₀.toStoredPath,hes₀.nodup,hleng ▸ hsh es hes⟩
   · intro h
     refine ⟨⟨fun _=>⟨es₀,hes₀.toStoredPath,hlen₀⟩,by simp⟩,?_⟩
     rintro p ⟨⟩
     refine ⟨rfl,rfl,es₀,hes₀.toStoredPath,rfl,fun es hes=>?_⟩
     by_cases hlen : es.length ≤ maxHops
     · obtain ⟨es',hes',hn,hle⟩:=h es hes hlen
       exact (hl es' ⟨hes',hn⟩).trans hle
     · omega

def leastDepthFirst : DepthOrder where
 first := List.argmin PathRow.depth
 first_none _ h := argmin_eq_none.mp h
 first_some _ _ h := ⟨argmin_mem h,fun _ hr => le_of_mem_argmin hr h⟩

def definitionEdge (fileId symbolId : Int) : EdgeRow where
 id := 1
 workspaceId := 1
 edge := ⟨.definition,.file fileId,.symbol symbolId,.resolved,.direct,none,"",none⟩

def oneDefinition (fileId symbolId : Int) : Database where
 files := ⟨[],nodup_nil⟩
 symbols := ⟨[],nodup_nil⟩
 chunks := ⟨[],nodup_nil⟩
 edges := ⟨[definitionEdge fileId symbolId],nodup_singleton _⟩

theorem storedPath_oneDefinition (fileId symbolId : Int) :
 StoredPath (oneDefinition fileId symbolId) 1 (.file fileId) [definitionEdge fileId symbolId]
  (.symbol symbolId) :=
 ⟨by simp [oneDefinition,Database.edgesByWorkspace,definitionEdge],rfl,rfl⟩

theorem shortestPath_correct_definition :
 ∃ found,(oneDefinition 3 8).shortestPath leastDepthFirst 1 (.file 3) (.symbol 8) 2 =
  some found ∧
  ShortestAnswer (oneDefinition 3 8) 1 (.file 3) (.symbol 8) 2 found := by
 refine (shortestPath_correct_iff leastDepthFirst (by decide)).mpr fun es hes _=>?_
 refine ⟨_,storedPath_oneDefinition 3 8,by decide,?_⟩
 cases es with
 | nil => exact absurd hes.chain (by simp [Chain])
 | cons e es => simp

/-- A file and a symbol of one number: the edge between them is not followed. -/
theorem shortestPath_misses_equal_numbers :
 (oneDefinition 7 7).shortestPath leastDepthFirst 1 (.file 7) (.symbol 7) 2 = some none ∧
  StoredPath (oneDefinition 7 7) 1 (.file 7) [definitionEdge 7 7] (.symbol 7) :=
 ⟨by decide +kernel,storedPath_oneDefinition 7 7⟩

end DhKit.Graphs
