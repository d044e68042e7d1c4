import Mathlib.Data.List.Basic
import StepScript.Proofs.Log
import StepScript.Provider.Data

/-!
The table of the tools that sources offer. Whatever is offered, in whatever order and however often,
the table has each name once, at the place of its first offer and as it was offered last, and sends
it to the source of that last offer. So a call reaches the source whose tool is shown, or nobody;
and when a source cannot be listed the table stays as it was.
-/

set_option autoImplicit false
set_option relaxedAutoImplicit false

namespace StepScript

structure Offer where
  source : Nat
  tool : Tool

namespace Offer

def names (made : List Offer) : List String := made.map fun o => o.tool.name

/-- The offer that stands when all of these are made: no later one has its name. -/
def IsLast (made : List Offer) (o : Offer) : Prop :=
  ∃ before after, made = before ++ o :: after ∧ o.tool.name ∉ names after

def ofLists (first : Nat) (lists : List (List Tool)) : List Offer :=
  (lists.zipIdx first).flatMap fun entry => entry.1.map fun tool => ⟨entry.2, tool⟩

private theorem names_concat (made : List Offer) (o : Offer) :
    names (made ++ [o]) = names made ++ [o.tool.name] :=
  List.map_append

private theorem isLast_self (made : List Offer) (o : Offer) : IsLast (made ++ [o]) o :=
  ⟨made, [], rfl, List.not_mem_nil⟩

private theorem IsLast.append {made : List Offer} {o o' : Offer} (h : IsLast made o)
    (hne : o'.tool.name ≠ o.tool.name) : IsLast (made ++ [o']) o := by
  obtain ⟨before, after, rfl, hafter⟩ := h
  refine ⟨before, after ++ [o'], by simp, ?_⟩
  rw [names_concat, List.mem_append]
  rintro (hmem | hmem)
  · exact hafter hmem
  · exact hne (List.mem_singleton.1 hmem).symm

private theorem IsLast.mem {made : List Offer} {o : Offer} (h : IsLast made o) : o ∈ made := by
  obtain ⟨before, after, rfl, -⟩ := h
  simp

private theorem ofLists_cons (first : Nat) (tools : List Tool) (lists : List (List Tool)) :
    ofLists first (tools :: lists) = tools.map (⟨first, ·⟩) ++ ofLists (first + 1) lists := rfl

private theorem source_lt_of_mem_ofLists {first : Nat} {lists : List (List Tool)} {o : Offer}
    (h : o ∈ ofLists first lists) : o.source < first + lists.length := by
  obtain ⟨⟨tools, k⟩, hentry, ho⟩ := List.mem_flatMap.1 h
  obtain ⟨tool, -, rfl⟩ := List.mem_map.1 ho
  have hlt := List.snd_lt_add_of_mem_zipIdx hentry
  exact hlt

end Offer

namespace Offers

private def addAll (offers : Offers) (more : List Offer) : Offers :=
  more.foldl (fun offers o => offers.add o.source o.tool) offers

private theorem addAll_append (offers : Offers) (more others : List Offer) :
    offers.addAll (more ++ others) = (offers.addAll more).addAll others :=
  List.foldl_append

private theorem addAll_map (offers : Offers) (source : Nat) (tools : List Tool) :
    offers.addAll (tools.map (⟨source, ·⟩)) = tools.foldl (add source) offers :=
  List.foldl_map

/-- A table reflects the offers that have been made: it has the names in the order of their first
offers, each as it was offered last and with the source of that offer, and routes for no others. -/
structure Reflects (offers : Offers) (made : List Offer) : Prop where
  names : ∀ name, name ∈ offers.tools.map Tool.name ↔ name ∈ Offer.names made
  order : (offers.tools.map Tool.name).Pairwise fun a b =>
    (Offer.names made).idxOf a < (Offer.names made).idxOf b
  last : ∀ tool ∈ offers.tools, ∃ k, Offer.IsLast made ⟨k, tool⟩ ∧
    offers.routes.find? tool.name = some k
  routes : ∀ name, offers.routes.contains name = true ↔ name ∈ offers.tools.map Tool.name

private theorem map_name_replaceFirst {tool : Tool} (tools : List Tool) :
    (replaceFirst tool tools).map Tool.name = tools.map Tool.name := by
  induction tools with
  | nil => rfl
  | cons other rest ih =>
    unfold replaceFirst
    split
    · next hname => rw [List.map_cons, List.map_cons, eq_of_beq hname]
    · rw [List.map_cons, List.map_cons, ih]

private theorem mem_replaceFirst {tool other : Tool} {tools : List Tool}
    (hnodup : (tools.map Tool.name).Nodup) (h : other ∈ replaceFirst tool tools) :
    other = tool ∨ other ∈ tools ∧ other.name ≠ tool.name := by
  induction tools with
  | nil => cases h
  | cons first rest ih =>
    rw [List.map_cons, List.nodup_cons] at hnodup
    obtain ⟨hfirst, hrest⟩ := hnodup
    unfold replaceFirst at h
    split at h
    · next hname =>
      rcases List.mem_cons.1 h with heq | hmem
      · exact .inl heq
      · refine .inr ⟨List.mem_cons_of_mem _ hmem, fun hsame => hfirst ?_⟩
        rw [eq_of_beq hname, ← hsame]
        exact List.mem_map_of_mem hmem
    · next hname =>
      rcases List.mem_cons.1 h with rfl | hmem
      · exact .inr ⟨List.mem_cons_self, fun hsame => hname (beq_iff_eq.2 hsame)⟩
      · rcases ih hrest hmem with heq | ⟨hmem', hne⟩
        · exact .inl heq
        · exact .inr ⟨List.mem_cons_of_mem _ hmem', hne⟩

private theorem contains_add (offers : Offers) (source : Nat) (tool : Tool) (name : String) :
    (offers.add source tool).routes.contains name = true ↔
      tool.name = name ∨ offers.routes.contains name = true := by
  have hfind := Dict.find?_insert offers.routes tool.name name source
  unfold Offers.add Dict.contains
  rw [hfind]
  by_cases hsame : tool.name = name
  · simp [hsame]
  · simp [hsame]

namespace Reflects

variable {offers : Offers} {made : List Offer}

private theorem empty : Offers.empty.Reflects [] where
  names _ := Iff.rfl
  order := .nil
  last := nofun
  routes _ := iff_of_false nofun nofun

private theorem nodup (h : offers.Reflects made) : (offers.tools.map Tool.name).Nodup :=
  h.order.imp fun {a b} hlt heq => by
    rw [heq] at hlt
    exact Nat.lt_irrefl _ hlt

private theorem contains_iff (h : offers.Reflects made) (name : String) :
    offers.routes.contains name = true ↔ name ∈ Offer.names made :=
  (h.routes name).trans (h.names name)

private theorem map_name_add (h : offers.Reflects made) (source : Nat) (tool : Tool) :
    (offers.add source tool).tools.map Tool.name =
      if tool.name ∈ Offer.names made then offers.tools.map Tool.name
      else offers.tools.map Tool.name ++ [tool.name] := by
  unfold Offers.add
  simp only [h.contains_iff]
  split
  · exact map_name_replaceFirst offers.tools
  · exact List.map_append

private theorem mem_tools_add (h : offers.Reflects made) {source : Nat} {tool other : Tool}
    (hmem : other ∈ (offers.add source tool).tools) :
    other = tool ∨ other ∈ offers.tools ∧ other.name ≠ tool.name := by
  unfold Offers.add at hmem
  simp only [h.contains_iff] at hmem
  split at hmem
  · exact mem_replaceFirst h.nodup hmem
  · next hnew =>
    rcases List.mem_append.1 hmem with hold | hlast
    · refine .inr ⟨hold, fun hsame => hnew ?_⟩
      rw [← hsame, ← h.names]
      exact List.mem_map_of_mem hold
    · exact .inl (List.mem_singleton.1 hlast)

private theorem mem_names_add (h : offers.Reflects made) (o : Offer) (name : String) :
    name ∈ (offers.add o.source o.tool).tools.map Tool.name ↔
      name ∈ Offer.names (made ++ [o]) := by
  rw [h.map_name_add, Offer.names_concat, List.mem_append, List.mem_singleton]
  split
  · next hknown =>
    rw [h.names]
    constructor
    · exact .inl
    · rintro (hold | rfl)
      · exact hold
      · exact hknown
  · rw [List.mem_append, List.mem_singleton, h.names]

private theorem order_add (h : offers.Reflects made) (o : Offer) :
    ((offers.add o.source o.tool).tools.map Tool.name).Pairwise fun a b =>
      (Offer.names (made ++ [o])).idxOf a < (Offer.names (made ++ [o])).idxOf b := by
  have hplace {name : String} (hname : name ∈ offers.tools.map Tool.name) :
      (Offer.names (made ++ [o])).idxOf name = (Offer.names made).idxOf name := by
    rw [Offer.names_concat]
    exact List.idxOf_append_of_mem ((h.names name).1 hname)
  have hbefore : (offers.tools.map Tool.name).Pairwise fun a b =>
      (Offer.names (made ++ [o])).idxOf a < (Offer.names (made ++ [o])).idxOf b :=
    h.order.imp_of_mem fun ha hb hlt => by rwa [hplace ha, hplace hb]
  rw [h.map_name_add]
  split
  · exact hbefore
  · next hnew =>
    refine List.pairwise_append.2 ⟨hbefore, List.pairwise_singleton _ _, ?_⟩
    intro a ha b hb
    have hlt : (Offer.names made).idxOf a < (Offer.names made).length :=
      List.idxOf_lt_length_of_mem ((h.names a).1 ha)
    have hlast : (Offer.names (made ++ [o])).idxOf b = (Offer.names made).length := by
      rw [List.mem_singleton.1 hb, Offer.names_concat, List.idxOf_append_of_notMem hnew]
      simp
    rw [hplace ha, hlast]
    exact hlt

private theorem last_add (h : offers.Reflects made) (o : Offer) {tool : Tool}
    (htool : tool ∈ (offers.add o.source o.tool).tools) :
    ∃ k, Offer.IsLast (made ++ [o]) ⟨k, tool⟩ ∧
      (offers.add o.source o.tool).routes.find? tool.name = some k := by
  have hfind := Dict.find?_insert offers.routes o.tool.name tool.name o.source
  rcases h.mem_tools_add htool with rfl | ⟨hold, hne⟩
  · rw [if_pos rfl] at hfind
    exact ⟨o.source, Offer.isLast_self made o, hfind⟩
  · obtain ⟨k, hlast, hroute⟩ := h.last tool hold
    rw [if_neg hne.symm] at hfind
    exact ⟨k, hlast.append hne.symm, hfind.trans hroute⟩

private theorem add (h : offers.Reflects made) (o : Offer) :
    (offers.add o.source o.tool).Reflects (made ++ [o]) where
  names := h.mem_names_add o
  order := h.order_add o
  last _ := h.last_add o
  routes name := by
    rw [contains_add, h.mem_names_add, Offer.names_concat, List.mem_append, List.mem_singleton,
      h.contains_iff, or_comm, eq_comm]

private theorem addAll (h : offers.Reflects made) (more : List Offer) :
    (offers.addAll more).Reflects (made ++ more) := by
  induction more generalizing offers made with
  | nil =>
    rw [List.append_nil]
    exact h
  | cons o more ih =>
    have hadded := ih (h.add o)
    rw [List.append_assoc, List.singleton_append] at hadded
    exact hadded

example :
    let tool (name : String) : Tool := ⟨"function", name, none, .null⟩
    let offers := Offers.empty.addAll (Offer.ofLists 0 [[tool "get", tool "put"], [tool "get"]])
    offers.tools.map Tool.name = ["get", "put"] ∧ offers.routes.find? "get" = some 1 ∧
      offers.routes.find? "put" = some 0 := by decide

end Reflects
end Offers

/-! ## Sources that are listed and called -/

inductive Inquiry
  | listed (source : Nat)
  | called (source : Nat) (tool : String) (arguments : Json)

structure Keeping (σ : Type) where
  offers : Offers
  world : σ

namespace Keeping

variable {σ α : Type}

def lift (x : StateM σ α) : StateM (Keeping σ) α :=
  fun s => ((x.run s.world).1, ⟨s.offers, (x.run s.world).2⟩)

private theorem run_lift (x : StateM σ α) (offers : Offers) (world : σ) :
    (lift x).run ⟨offers, world⟩ = ((x.run world).1, ⟨offers, (x.run world).2⟩) := rfl

def cell : Cell (StateM (Log Inquiry (Keeping σ))) Offers where
  get := fun s => (s.world.offers, s)
  set offers := fun s => ((), ⟨s.entries, ⟨offers, s.world.world⟩⟩)

end Keeping

variable {σ : Type}

def ToolSource.noted (source : ToolSource (StateM σ)) (k : Nat) :
    ToolSource (StateM (Log Inquiry (Keeping σ))) where
  name := source.name
  list := Log.noting (fun _ => .listed k) (Keeping.lift source.list)
  call tool arguments :=
    Log.noting (fun _ => .called k tool arguments) (Keeping.lift (source.call tool arguments))

def ToolSource.notedFrom (first : Nat) (sources : List (ToolSource (StateM σ))) :
    List (ToolSource (StateM (Log Inquiry (Keeping σ)))) :=
  (sources.zipIdx first).map fun entry => entry.1.noted entry.2

inductive ToolSource.Lists :
    List (ToolSource (StateM σ)) → σ → List (List Tool) → σ → Prop
  | nil (world : σ) : Lists [] world [] world
  | cons {source : ToolSource (StateM σ)} {rest : List (ToolSource (StateM σ))}
      {tools : List Tool} {lists : List (List Tool)} {world world₁ world' : σ}
      (hlist : source.list.run world = (.ok tools, world₁))
      (hrest : Lists rest world₁ lists world') :
      Lists (source :: rest) world (tools :: lists) world'

/-- The first of the sources that cannot be listed, what is reported of it, and the world then. -/
inductive ToolSource.Fails :
    List (ToolSource (StateM σ)) → σ → Nat → Trouble → σ → Prop
  | here {source : ToolSource (StateM σ)} {rest : List (ToolSource (StateM σ))} {t : Trouble}
      {world world' : σ} (hlist : source.list.run world = (.error t, world')) :
      Fails (source :: rest) world 0 (t.within ("listing tools of provider " ++ source.name)) world'
  | later {source : ToolSource (StateM σ)} {rest : List (ToolSource (StateM σ))} {t : Trouble}
      {k : Nat} {tools : List Tool} {world world₁ world' : σ}
      (hlist : source.list.run world = (.ok tools, world₁)) (hrest : Fails rest world₁ k t world') :
      Fails (source :: rest) world (k + 1) t world'

namespace ToolSource

private theorem notedFrom_cons (first : Nat) (source : ToolSource (StateM σ))
    (rest : List (ToolSource (StateM σ))) :
    notedFrom first (source :: rest) = source.noted first :: notedFrom (first + 1) rest := rfl

private theorem getElem?_notedFrom (sources : List (ToolSource (StateM σ))) (k : Nat) :
    (notedFrom 0 sources)[k]? = sources[k]?.map fun source => source.noted k := by
  unfold notedFrom
  rw [List.getElem?_map, List.getElem?_zipIdx, Option.map_map, Nat.zero_add]
  rfl

private theorem run_list_noted {source : ToolSource (StateM σ)} {world world' : σ}
    {listed : Except Trouble (List Tool)} (h : source.list.run world = (listed, world')) (k : Nat)
    (notes : List Inquiry) (offers : Offers) :
    (source.noted k).list.run ⟨notes, ⟨offers, world⟩⟩ =
      (listed, ⟨notes ++ [.listed k], ⟨offers, world'⟩⟩) := by
  have hlift : (Keeping.lift source.list).run ⟨offers, world⟩ = (listed, ⟨offers, world'⟩) := by
    rw [Keeping.run_lift, h]
  exact Log.run_noting (fun _ => .listed k) hlift notes

private theorem lists_or_fails (sources : List (ToolSource (StateM σ))) (world : σ) :
    (∃ lists world', Lists sources world lists world') ∨
      ∃ k t world', Fails sources world k t world' := by
  induction sources generalizing world with
  | nil => exact .inl ⟨[], world, .nil world⟩
  | cons source rest ih =>
    rcases hlist : source.list.run world with ⟨listed, world₁⟩
    cases listed with
    | error t => exact .inr ⟨0, _, world₁, .here hlist⟩
    | ok tools =>
      rcases ih world₁ with ⟨lists, world', hlists⟩ | ⟨k, t, world', hfails⟩
      · exact .inl ⟨tools :: lists, world', .cons hlist hlists⟩
      · exact .inr ⟨k + 1, t, world', .later hlist hfails⟩

private theorem Lists.length_eq {sources : List (ToolSource (StateM σ))} {lists : List (List Tool)}
    {world world' : σ} (h : Lists sources world lists world') : lists.length = sources.length := by
  induction h with
  | nil world => rfl
  | cons _ _ ih => exact congrArg (· + 1) ih

end ToolSource

namespace DataActions

section Collecting

variable {sources : List (ToolSource (StateM σ))} {world world' : σ}

private theorem collectFrom_of_lists {lists : List (List Tool)}
    (h : ToolSource.Lists sources world lists world') (first : Nat) (offers kept : Offers)
    (notes : List Inquiry) :
    (collectFrom first offers (ToolSource.notedFrom first sources)).run ⟨notes, ⟨kept, world⟩⟩ =
      (.ok (offers.addAll (Offer.ofLists first lists)),
        ⟨notes ++ (List.range' first sources.length).map .listed, ⟨kept, world'⟩⟩) := by
  induction h generalizing first offers notes with
  | nil world =>
    rw [List.length_nil, List.range'_zero, List.map_nil, List.append_nil]
    rfl
  | @cons source rest tools lists world world₁ world' hlist _ ih =>
    have hlisted := ToolSource.run_list_noted hlist first notes kept
    have hrest := ih (first + 1) (tools.foldl (Offers.add first) offers) (notes ++ [.listed first])
    rw [ToolSource.notedFrom_cons, collectFrom, run_bind_of hlisted]
    refine hrest.trans ?_
    rw [Offer.ofLists_cons, Offers.addAll_append, Offers.addAll_map, List.length_cons,
      List.range'_succ, List.map_cons, List.append_assoc, List.singleton_append]

private theorem collectFrom_of_fails {k : Nat} {t : Trouble}
    (h : ToolSource.Fails sources world k t world')
    (first : Nat) (offers kept : Offers) (notes : List Inquiry) :
    (collectFrom first offers (ToolSource.notedFrom first sources)).run ⟨notes, ⟨kept, world⟩⟩ =
      (.error t, ⟨notes ++ (List.range' first (k + 1)).map .listed, ⟨kept, world'⟩⟩) := by
  induction h generalizing first offers notes with
  | here hlist =>
    have hlisted := ToolSource.run_list_noted hlist first notes kept
    rw [ToolSource.notedFrom_cons, collectFrom, run_bind_of hlisted]
    rfl
  | @later source rest t k tools world world₁ world' hlist _ ih =>
    have hlisted := ToolSource.run_list_noted hlist first notes kept
    have hrest := ih (first + 1) (tools.foldl (Offers.add first) offers) (notes ++ [.listed first])
    have hrange : List.range' first (k + 2) = first :: List.range' (first + 1) (k + 1) :=
      List.range'_succ
    rw [ToolSource.notedFrom_cons, collectFrom, run_bind_of hlisted]
    refine hrest.trans ?_
    rw [hrange, List.map_cons, List.append_assoc, List.singleton_append]

end Collecting

variable (a : DataActions (StateM (Log Inquiry (Keeping σ))))
  (sources : List (ToolSource (StateM σ)))

def withSources : DataActions (StateM (Log Inquiry (Keeping σ))) :=
  { a with sources := ToolSource.notedFrom 0 sources, offers := Keeping.cell }

/-- How instructions are carried out with a table of offers. A model is shown the tools of the
table. Its call of one of them reaches the source of the last offer of the tool if the arguments can
be read, and nobody if not; a call of another name reaches nobody. -/
structure Heeds (table : Offers) (made : List Offer) : Prop where
  shows : ∀ (instruction : String) (notes : List Inquiry) (world : σ),
    ((a.withSources sources).carryOut instruction).run ⟨notes, ⟨table, world⟩⟩ =
      (a.assistant.carryOut instruction ⟨a.briefing, table.tools, a.useCache, cacheScope⟩
        (a.withSources sources).dispatch).run ⟨notes, ⟨table, world⟩⟩
  reaches : ∀ tool ∈ table.tools, ∃ k source, sources[k]? = some source ∧
    Offer.IsLast made ⟨k, tool⟩ ∧ ∀ (call : ToolCall) (notes : List Inquiry) (world : σ),
      call.name = tool.name →
        ((a.withSources sources).dispatch call).run ⟨notes, ⟨table, world⟩⟩ =
          match call.arguments? with
          | none => (.error call.undecodable, ⟨notes, ⟨table, world⟩⟩)
          | some arguments =>
            (((source.call tool.name arguments).run world).1,
              ⟨notes ++ [.called k tool.name arguments],
                ⟨table, ((source.call tool.name arguments).run world).2⟩⟩)
  refuses : ∀ (call : ToolCall) (notes : List Inquiry) (world : σ),
    call.name ∉ table.tools.map Tool.name →
      ((a.withSources sources).dispatch call).run ⟨notes, ⟨table, world⟩⟩ =
        (.error (.of ("Unknown tool: " ++ call.name)), ⟨notes, ⟨table, world⟩⟩)

variable {a sources}

private theorem run_dispatch (table : Offers) (call : ToolCall) (notes : List Inquiry) (world : σ) :
    ((a.withSources sources).dispatch call).run ⟨notes, ⟨table, world⟩⟩ =
      (match (a.withSources sources).sourceOf? table call.name with
      | none => (.error (.of ("Unknown tool: " ++ call.name)), ⟨notes, ⟨table, world⟩⟩)
      | some source =>
        match call.arguments? with
        | none => (.error call.undecodable, ⟨notes, ⟨table, world⟩⟩)
        | some arguments => (source.call call.name arguments).run ⟨notes, ⟨table, world⟩⟩) := by
  have hget : (a.withSources sources).offers.get.run ⟨notes, ⟨table, world⟩⟩ =
      (table, ⟨notes, ⟨table, world⟩⟩) := rfl
  rw [dispatch, run_bind_of hget]
  cases (a.withSources sources).sourceOf? table call.name with
  | none => rfl
  | some source =>
    cases call.arguments? with
    | none => rfl
    | some arguments => rfl

private theorem heeds_of_reflects {table : Offers} {lists : List (List Tool)}
    (hlength : lists.length = sources.length) (h : table.Reflects (Offer.ofLists 0 lists)) :
    a.Heeds sources table (Offer.ofLists 0 lists) where
  shows _ _ _ := rfl
  reaches := by
    intro tool htool
    obtain ⟨k, hlast, hroute⟩ := h.last tool htool
    have hlt : k < sources.length := by
      have hbound : k < 0 + lists.length := Offer.source_lt_of_mem_ofLists hlast.mem
      omega
    have hsource : sources[k]? = some sources[k] := List.getElem?_eq_getElem hlt
    refine ⟨k, sources[k], hsource, hlast, fun call notes world hname => ?_⟩
    have hfound : (a.withSources sources).sourceOf? table call.name =
        some (sources[k].noted k) := by
      rw [hname]
      unfold sourceOf? withSources
      rw [hroute, Option.bind_some, ToolSource.getElem?_notedFrom, hsource, Option.map_some]
    rw [run_dispatch, hfound, hname]
    rfl
  refuses := by
    intro call notes world hname
    have hfound : (a.withSources sources).sourceOf? table call.name = none := by
      have hroute : table.routes.find? call.name = none := by
        have hcontains := mt (h.routes call.name).1 hname
        unfold Dict.contains at hcontains
        exact Option.not_isSome_iff_eq_none.1 hcontains
      unfold sourceOf?
      rw [hroute, Option.bind_none]
    rw [run_dispatch, hfound]

/-- When all sources can be listed, the table that is kept then has each offered name once, in the
order of their first offers and as it was offered last, and calls go where the last offer came from.
When one of them cannot, the table stays as it was. -/
theorem collect_reflects_or_keeps (a : DataActions (StateM (Log Inquiry (Keeping σ))))
    (sources : List (ToolSource (StateM σ))) (kept : Offers) (notes : List Inquiry) (world : σ) :
    (∃ lists table world', ToolSource.Lists sources world lists world' ∧
      (a.withSources sources).collect.run ⟨notes, ⟨kept, world⟩⟩ =
        (.ok (), ⟨notes ++ (List.range sources.length).map .listed, ⟨table, world'⟩⟩) ∧
      table.Reflects (Offer.ofLists 0 lists) ∧ (table.tools.map Tool.name).Nodup ∧
      a.Heeds sources table (Offer.ofLists 0 lists)) ∨
    ∃ k t world', ToolSource.Fails sources world k t world' ∧
      (a.withSources sources).collect.run ⟨notes, ⟨kept, world⟩⟩ =
        (.error t, ⟨notes ++ (List.range (k + 1)).map .listed, ⟨kept, world'⟩⟩) := by
  rcases ToolSource.lists_or_fails sources world with ⟨lists, world', h⟩ | ⟨k, t, world', h⟩
  · left
    have hrun := collectFrom_of_lists h 0 .empty kept notes
    have hreflects : (Offers.empty.addAll (Offer.ofLists 0 lists)).Reflects
        (Offer.ofLists 0 lists) := Offers.Reflects.empty.addAll (Offer.ofLists 0 lists)
    rw [← List.range_eq_range'] at hrun
    refine ⟨lists, _, world', h, ?_, hreflects, hreflects.nodup,
      heeds_of_reflects h.length_eq hreflects⟩
    rw [collect]
    exact run_bind_of hrun
  · right
    have hrun := collectFrom_of_fails h 0 .empty kept notes
    rw [← List.range_eq_range'] at hrun
    refine ⟨k, t, world', h, ?_⟩
    rw [collect]
    exact run_bind_of hrun

end DataActions
end StepScript
