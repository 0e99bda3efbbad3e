import HabitatGraph.Export.Json
import HabitatGraph.Foundation.JsonText
import HabitatGraph.Foundation.Placeholders

/-! # HTML export

The viewer is one page: a template with two placeholders for the title and one for the
node-link text, which the page reads back as its data island. An angle bracket of that text
is written as an escape of JSON, so that the island ends where the template says and decodes
to the value that was exported.
-/

namespace HabitatGraph

open Template Placeholders

/-! ## The template -/

def viewerHead : List String :=
  ["<!doctype html>\n",
    "<html lang=\"en\"><head><meta charset=\"utf-8\"><meta name=\"viewport\" ",
    "content=\"width=device-width,initial-scale=1\">\n",
    "<title>"]

def viewerHud : List String :=
  ["</title>\n",
    "<style>\n",
    " html,body\x7bmargin:0;height:100%;background:#0b0f14;color:#cdd9e5;font:13px ",
    "system-ui,sans-serif;overflow:hidden\x7d\n",
    " #c\x7bdisplay:block;position:absolute;inset:0;cursor:grab\x7d\n",
    " #hud\x7bposition:absolute;top:10px;left:10px;z-index:2;background:rgba(15,22,30,.88);",
    "padding:10px 12px;border-radius:8px;border:1px solid #1d2a38;max-width:300px\x7d\n",
    " #hud h1\x7bfont-size:13px;margin:0 0 8px;color:#7ee787;font-weight:600\x7d\n",
    " #search\x7bwidth:100%;box-sizing:border-box;background:#0b1117;border:1px solid #25323f;",
    "color:#cdd9e5;padding:6px 8px;border-radius:6px;outline:none\x7d\n",
    " #search:focus\x7bborder-color:#3b5168\x7d\n",
    " #stat\x7bmargin-top:6px\x7d\n",
    " #info\x7bposition:absolute;top:10px;right:10px;z-index:2;background:rgba(15,22,30,.92);",
    "padding:10px 12px;border-radius:8px;border:1px solid #1d2a38;max-width:320px;",
    "display:none\x7d\n",
    " .muted\x7bcolor:#6b7a8d\x7d\n",
    " #hint\x7bposition:absolute;bottom:8px;left:10px;color:#5261733;z-index:2\x7d\n",
    "</style></head>\n",
    "<body>\n",
    "<canvas id=\"c\"></canvas>\n",
    "<div id=\"hud\"><h1>"]

def viewerHint : List String :=
  ["</h1><input id=\"search\" placeholder=\"search nodes…\" autocomplete=\"off\"><div ",
    "id=\"stat\" class=\"muted\"></div></div>\n",
    "<div id=\"info\"></div>\n",
    "<div id=\"hint\" class=\"muted\">drag = pan · wheel = zoom · click a node = inspect · type ",
    "to search</div>\n"]

/-- The tag that opens the data island. -/
def islandTag : String := "<script type=\"application/json\" id=\"graph-data\">"

def viewerScript : List String :=
  ["</script>\n",
    "<script>\n",
    "(function()\x7b\n",
    " var raw=JSON.parse(document.getElementById('graph-data').textContent);\n",
    " var cv=document.getElementById('c'),ctx=cv.getContext('2d'),W,H;\n",
    " function resize()\x7bW=cv.width=innerWidth;H=cv.height=innerHeight;\x7d resize(); ",
    "addEventListener('resize',resize);\n",
    " var idOf=new Map();\n",
    " var N=raw.nodes.map(function(n,i)\x7bidOf.set(n.id,i);",
    "return\x7bid:n.id,label:n.label||('#'+n.id),file:n.source_file||'',",
    "loc:n.source_location||'',com:(n.community|0),x:(Math.random()-0.5)*600,y:(Math.random()",
    "-0.5)*600,vx:0,vy:0,deg:0\x7d;\x7d);\n",
    " var L=raw.links.map(function(l)\x7breturn\x7bs:idOf.get(l.source),t:idOf.get(l.target),",
    "rel:l.relation||''\x7d;\x7d).filter(function(l)\x7breturn l.s!=null&&l.t!=null;\x7d);\n",
    " L.forEach(function(l)\x7bN[l.s].deg++;N[l.t].deg++;\x7d);\n",
    " function color(c)\x7breturn 'hsl('+((c*137.508)%360)+' 65% 60%)';\x7d\n",
    " var scale=1,ox=W/2,oy=H/2,sel=null,hi=new Set(),alpha=1;\n",
    " function tick()\x7b\n",
    "  if(alpha>0.004)\x7b\n",
    "   var k=0.02,rep=1400,i,j;\n",
    "   for(i=0;i<N.length;i++)\x7bvar a=N[i];\n",
    "    for(j=i+1;j<N.length;j++)\x7bvar b=N[j];var ",
    "dx=a.x-b.x,dy=a.y-b.y,d2=dx*dx+dy*dy+0.01,d=Math.sqrt(d2),f=rep/d2;a.vx+=f*dx/d;",
    "a.vy+=f*dy/d;b.vx-=f*dx/d;b.vy-=f*dy/d;\x7d\n",
    "    a.vx-=a.x*0.0009;a.vy-=a.y*0.0009;\x7d\n",
    "   for(i=0;i<L.length;i++)\x7bvar p=N[L[i].s],q=N[L[i].t];var ex=q.x-p.x,ey=q.y-p.y;",
    "p.vx+=ex*k;p.vy+=ey*k;q.vx-=ex*k;q.vy-=ey*k;\x7d\n",
    "   for(i=0;i<N.length;i++)\x7bvar nn=N[i];nn.x+=nn.vx*alpha;nn.y+=nn.vy*alpha;nn.vx*=0.85;",
    "nn.vy*=0.85;\x7d\n",
    "   alpha*=0.992;\n",
    "  \x7d\n",
    "  draw(); requestAnimationFrame(tick);\n",
    " \x7d\n",
    " function draw()\x7b\n",
    "  ctx.setTransform(1,0,0,1,0,0);ctx.clearRect(0,0,W,H);",
    "ctx.setTransform(scale,0,0,scale,ox,oy);\n",
    "  ctx.lineWidth=0.6/scale;ctx.strokeStyle='rgba(120,140,160,0.12)';ctx.beginPath();\n",
    "  for(var i=0;i<L.length;i++)\x7bvar a=N[L[i].s],b=N[L[i].t];ctx.moveTo(a.x,a.y);",
    "ctx.lineTo(b.x,b.y);\x7d ctx.stroke();\n",
    "  for(i=0;i<N.length;i++)\x7bvar n=N[i],r=2+Math.min(7,n.deg),on=hi.size?hi.has(n):true;\n",
    "   ctx.globalAlpha=on?1:0.1;ctx.beginPath();ctx.arc(n.x,n.y,r,0,6.2832);",
    "ctx.fillStyle=color(n.com);ctx.fill();\n",
    "   if(n===sel)\x7bctx.lineWidth=2/scale;ctx.strokeStyle='#fff';ctx.stroke();\x7d\x7d\n",
    "  ctx.globalAlpha=1;\n",
    "  if(scale>1.7)\x7bctx.fillStyle='#9fb3c8';ctx.font=(10/scale)+'px sans-serif';for(i=0;",
    "i<N.length;i++)\x7bvar m=N[i];if(hi.size&&!hi.has(m))continue;",
    "ctx.fillText(m.label,m.x+5,m.y+3);\x7d\x7d\n",
    " \x7d\n",
    " var drag=null;\n",
    " cv.addEventListener('mousedown',function(e)\x7bdrag=\x7bx:e.clientX,y:e.clientY,ox:ox,",
    "oy:oy,moved:false\x7d;\x7d);\n",
    " addEventListener('mousemove',function(e)\x7bif(!drag)return;ox=drag.ox+(e.clientX-drag.x);",
    "oy=drag.oy+(e.clientY-drag.y);drag.moved=true;\x7d);\n",
    " addEventListener('mouseup',function(e)\x7bif(drag&&!drag.moved)pick(e);drag=null;\x7d);\n",
    " cv.addEventListener('wheel',function(e)\x7be.preventDefault();var ",
    "f=e.deltaY<0?1.1:0.9,mx=(e.clientX-ox)/scale,my=(e.clientY-oy)/scale;scale*=f;",
    "ox=e.clientX-mx*scale;oy=e.clientY-my*scale;\x7d,\x7bpassive:false\x7d);\n",
    " function pick(e)\x7bvar mx=(e.clientX-ox)/scale,my=(e.clientY-oy)/scale,best=null,bd=1e9;\n",
    "  for(var i=0;i<N.length;i++)\x7bvar n=N[i],dx=n.x-mx,dy=n.y-my,d=dx*dx+dy*dy;",
    "if(d<bd)\x7bbd=d;best=n;\x7d\x7d\n",
    "  var info=document.getElementById('info');\n",
    "  if(best&&bd<400/scale)\x7bsel=best;info.style.display='block';info.innerHTML='<b>",
    "'+esc(best.label)+'</b><br><span class=muted>'+esc(best.file)+' '+esc(best.loc)+'</span><br>",
    "community '+best.com+' · degree '+best.deg;\x7d\n",
    "  else\x7bsel=null;info.style.display='none';\x7d\n",
    " \x7d\n",
    " function esc(s)\x7breturn String(s).replace(/[&<>]/g,function(c)\x7breturn\x7b'&':'&amp;",
    "','<':'&lt;','>':'&gt;'\x7d[c];\x7d);\x7d\n",
    " var search=document.getElementById('search');\n",
    " search.addEventListener('input',function()\x7bvar q=search.value.toLowerCase().trim();",
    "hi=new Set();if(q)\x7bfor(var i=0;i<N.length;i++)if(N[i].label.toLowerCase().indexOf(q)>",
    "=0)hi.add(N[i]);\x7d\x7d);\n",
    " document.getElementById('stat').textContent=N.length+' nodes · '+L.length+' edges · '+(new ",
    "Set(N.map(function(n)\x7breturn n.com;\x7d)).size)+' communities';\n",
    " tick();\n",
    "\x7d)();\n",
    "</script></body></html>"]

/-- The page with a title and the text of its data island. -/
def viewerText (title data : String) : Text :=
  [.literal (String.join viewerHead), .argument title, .literal (String.join viewerHud),
    .argument title, .literal (String.join viewerHint), .literal islandTag, .argument data,
    .literal (String.join viewerScript)]

/-- The page with its placeholders. -/
def viewer : String := render (viewerText "__TITLE__" "__GRAPH_DATA__")

/-! ## The export -/

/-- Every occurrence of a pattern replaced. -/
def replace (s pattern replacement : String) : String :=
  String.ofList (replaceAll pattern.toList replacement.toList s.toList)

def viewerTitle (g : Graph) : String :=
  let (nodes, edges, communities) := g.counts
  displaySafe ("habitat-graph — " ++ toString nodes ++ " nodes / " ++ toString edges ++
    " edges / " ++ toString communities ++ " communities")

/-- Angle brackets stand only in the strings of a JSON text. -/
def safeJson (json : String) : String := replace json "<" "\\u003c"

def renderHtml (serde : SerdeJson) (g : Graph) : Except GraphError String := do
  let json ← serde.toNodeLink g
  return replace (replace viewer "__TITLE__" (viewerTitle g)) "__GRAPH_DATA__" (safeJson json)

/-! ## The template is plain -/

def placeholderStart : List Char := ['_', '_']

def scriptStart : List Char := ['<', 's', 'c', 'r', 'i', 'p', 't', ' ']

/-- Neither a placeholder nor the tag of an island starts in the text. -/
def isPlain (chars : List Char) : Bool :=
  isClear placeholderStart chars && isClear scriptStart chars

theorem isPlain_iff {chars : List Char} :
    isPlain chars ↔ isClear placeholderStart chars ∧ isClear scriptStart chars := by
  rw [isPlain, Bool.and_eq_true]

theorem isPlain_append {before chars : List Char} (hbefore : isPlain before)
    (hchars : isPlain chars) : isPlain (before ++ chars) := by
  rw [isPlain_iff] at *
  exact ⟨isClear_append hbefore.1 hchars.1, isClear_append hbefore.2 hchars.2⟩

/-- The lines of a text, each by its characters. -/
inductive Spelled : List String → List (List Char) → Prop
  | nil : Spelled [] []
  | cons {line : String} {chars : List Char} {lines : List String} {spelling : List (List Char)}
      (hline : line = String.ofList chars) (hlines : Spelled lines spelling) :
      Spelled (line :: lines) (chars :: spelling)

theorem isPlain_join {lines : List String} {spelling : List (List Char)}
    (hlines : Spelled lines spelling) (hplain : spelling.all isPlain) :
    isPlain (String.join lines).toList := by
  rw [String.toList_join]
  induction hlines with
  | nil => exact Bool.and_self true
  | cons hline _ ih =>
      obtain ⟨hchars, hrest⟩ := Bool.and_eq_true_iff.mp hplain
      rw [List.flatMap_cons, hline, String.toList_ofList]
      exact isPlain_append hchars (ih hrest)

/-- No part of the page holds a placeholder or the tag of an island. -/
theorem isPlain_viewerPart : isPlain (String.join viewerHead).toList ∧
    isPlain (String.join viewerHud).toList ∧ isPlain (String.join viewerHint).toList ∧
      isPlain (String.join viewerScript).toList := by
  refine ⟨?_, ?_, ?_, ?_⟩
  all_goals
    apply isPlain_join
    case hlines =>
      repeat apply Spelled.cons rfl
      exact Spelled.nil
    case hplain => decide +kernel

theorem isPlain_viewerHead : isPlain (String.join viewerHead).toList := isPlain_viewerPart.1

theorem isPlain_viewerHud : isPlain (String.join viewerHud).toList := isPlain_viewerPart.2.1

theorem isPlain_viewerHint : isPlain (String.join viewerHint).toList := isPlain_viewerPart.2.2.1

theorem isPlain_viewerScript : isPlain (String.join viewerScript).toList :=
  isPlain_viewerPart.2.2.2

theorem viewerScript_eq_cons :
    ∃ rest, (String.join viewerScript).toList = '<' :: rest := by
  rw [viewerScript, String.join_cons, String.toList_append]
  exact ⟨_, rfl⟩

/-! ## The title is plain -/

/-- A title holds digits and the words of its template. -/
theorem notMem_viewerTitle (g : Graph) {ch : Char} (hch : ch = '_' ∨ ch = '<') :
    ch ∉ (viewerTitle g).toList := by
  have hdigits : ∀ n, ch ∉ Nat.toDigits 10 n := by
    intro n hmem
    have hdigit := Nat.isDigit_of_mem_toDigits (by decide) (by decide) hmem
    cases hch with
    | inl h => simp [h] at hdigit
    | inr h => simp [h] at hdigit
  have hsafe : RenderSafe ("habitat-graph — " ++ toString g.nodes.length ++ " nodes / " ++
      toString g.edges.length ++ " edges / " ++ toString g.communities.length ++
      " communities") := by
    simp only [renderSafe_append, renderSafe_toString, and_true]
    decide
  unfold viewerTitle Graph.counts
  dsimp only
  rw [displaySafe_eq_self hsafe]
  simp only [String.toList_append, List.mem_append, Nat.toString_eq_ofList_toDigits,
    String.toList_ofList, hdigits, or_false]
  cases hch with
  | inl h => rw [h]; decide
  | inr h => rw [h]; decide

theorem isPlain_of_notMem {chars : List Char} (hmark : '_' ∉ chars) (hangle : '<' ∉ chars) :
    isPlain chars := by
  rw [isPlain_iff]
  exact ⟨isClear_of_notMem hmark, isClear_of_notMem hangle⟩

theorem isPlain_viewerTitle (g : Graph) : isPlain (viewerTitle g).toList :=
  isPlain_of_notMem (notMem_viewerTitle g (.inl rfl)) (notMem_viewerTitle g (.inr rfl))

/-! ## Filling the template -/

theorem toList_viewerText (title data : String) :
    (render (viewerText title data)).toList =
      (String.join viewerHead).toList ++ (title.toList ++ ((String.join viewerHud).toList ++
        (title.toList ++ ((String.join viewerHint).toList ++ (islandTag.toList ++
          (data.toList ++ (String.join viewerScript).toList)))))) := by
  simp only [render, viewerText, String.toList_ofList, List.flatMap_cons, List.flatMap_nil,
    Piece.chars, List.append_nil]

theorem title_starts : placeholderStart <+: "__TITLE__".toList := by decide

theorem data_starts : placeholderStart <+: "__GRAPH_DATA__".toList := by decide

theorem title_ne_nil : "__TITLE__".toList ≠ [] := by decide

theorem data_ne_nil : "__GRAPH_DATA__".toList ≠ [] := by decide

/-- A plain text is kept when a placeholder is filled. -/
theorem replaceAll_plain {pattern replacement before : List Char}
    (hpattern : placeholderStart <+: pattern) (hbefore : isPlain before) (chars : List Char) :
    replaceAll pattern replacement (before ++ chars) =
      before ++ replaceAll pattern replacement chars := by
  have hclear := isClear_of_start hpattern (isPlain_iff.mp hbefore).1
  exact replaceAll_append replacement hclear chars

theorem exists_islandTag_eq : ∃ chars, islandTag = String.ofList chars ∧
    isClear placeholderStart chars ∧ scriptStart <+: chars ∧ chars.head? = some '<' ∧
      '<' ∉ chars.tail := by
  refine ⟨_, rfl, ?_, ?_, rfl, ?_⟩ <;> decide

theorem isClear_islandTag : isClear placeholderStart islandTag.toList := by
  obtain ⟨chars, htag, hclear, -⟩ := exists_islandTag_eq
  rwa [htag, String.toList_ofList]

/-- The placeholder of the data is none of the title, whatever the script starts with. -/
theorem isClear_dataPlaceholder :
    isClear "__TITLE__".toList
      ("__GRAPH_DATA__".toList ++ (String.join viewerScript).toList) := by
  obtain ⟨rest, hscript⟩ := viewerScript_eq_cons
  have hplain := (isPlain_iff.mp isPlain_viewerScript).1
  rw [hscript] at hplain
  have hrest : isClear "__TITLE__".toList rest :=
    isClear_of_start title_starts (isClear_cons.mp hplain).2
  -- the placeholder ends like the other one starts: the bracket after it decides
  have hbefore : isClear "__TITLE__".toList ("__GRAPH_DATA__".toList ++ ['<']) := by decide
  rw [hscript, ← List.singleton_append, ← List.append_assoc]
  exact isClear_append hbefore hrest

/-- Filling the placeholders gives the template with the title and the data. -/
theorem replace_viewer {title : String} (htitle : isPlain title.toList) (data : String) :
    replace (replace viewer "__TITLE__" title) "__GRAPH_DATA__" data =
      render (viewerText title data) := by
  have htag : isClear "__TITLE__".toList islandTag.toList :=
    isClear_of_start title_starts isClear_islandTag
  have htag' : isClear "__GRAPH_DATA__".toList islandTag.toList :=
    isClear_of_start data_starts isClear_islandTag
  have hscript : isClear "__GRAPH_DATA__".toList (String.join viewerScript).toList :=
    isClear_of_start data_starts (isPlain_iff.mp isPlain_viewerScript).1
  have htitled : (replace viewer "__TITLE__" title).toList =
      (render (viewerText title "__GRAPH_DATA__")).toList := by
    rw [replace, viewer, String.toList_ofList, toList_viewerText, toList_viewerText,
      replaceAll_plain title_starts isPlain_viewerHead, replaceAll_pattern _ title_ne_nil,
      replaceAll_plain title_starts isPlain_viewerHud, replaceAll_pattern _ title_ne_nil,
      replaceAll_plain title_starts isPlain_viewerHint, replaceAll_append _ htag,
      replaceAll_eq_self _ isClear_dataPlaceholder]
  apply String.toList_inj.mp
  rw [replace, htitled, String.toList_ofList, toList_viewerText, toList_viewerText,
    replaceAll_plain data_starts isPlain_viewerHead, replaceAll_plain data_starts htitle,
    replaceAll_plain data_starts isPlain_viewerHud, replaceAll_plain data_starts htitle,
    replaceAll_plain data_starts isPlain_viewerHint, replaceAll_append _ htag',
    replaceAll_pattern _ data_ne_nil, replaceAll_eq_self _ hscript]

theorem renderHtml_eq (serde : SerdeJson) (g : Graph) :
    renderHtml serde g = (serde.toNodeLink g).map fun json =>
      render (viewerText (viewerTitle g) (safeJson json)) := by
  rw [renderHtml]
  cases serde.toNodeLink g with
  | error e => rfl
  | ok json => exact congrArg Except.ok (replace_viewer (isPlain_viewerTitle g) _)

/-! ## The island -/

/-- The library prints a value as a JSON text. -/
def SerdeJson.PrintsJson (serde : SerdeJson) (value : JsonValue) : Prop :=
  ∀ text, serde.toStringPretty value = .ok text → (JsonText.decode text.toList).isSome

theorem toList_safeJson (json : String) :
    (safeJson json).toList = JsonText.respell '<' "\\u003c".toList json.toList := by
  rw [safeJson, replace, String.toList_ofList]
  exact replaceAll_singleton "\\u003c".toList '<' json.toList

theorem notMem_safeJson (json : String) : '<' ∉ (safeJson json).toList := by
  rw [toList_safeJson, JsonText.respell, List.mem_flatMap]
  rintro ⟨c, hc, hmem⟩
  split at hmem
  next => exact absurd hmem (by decide)
  next hne => exact hne (List.mem_singleton.mp hmem).symm

/-- An angle bracket is read the same from its escape. -/
theorem decode_safeJson {json : String} (h : (JsonText.decode json.toList).isSome) :
    JsonText.decode (safeJson json).toList = JsonText.decode json.toList := by
  -- an angle bracket after a backslash is refused, so it always stands for itself
  have hforeign : JsonText.IsForeign '<' := by
    simp only [JsonText.IsForeign]
    decide
  have hspelling : ∀ value, Scanner.Reads JsonText.lexer (.string value) "\\u003c".toList []
      (.string (value ++ ['<'])) := by
    intro value
    rfl
  rw [toList_safeJson]
  exact JsonText.decode_respell hforeign hspelling h

theorem islandTag_starts : scriptStart <+: islandTag.toList := by
  obtain ⟨chars, htag, -, hstarts, -⟩ := exists_islandTag_eq
  rwa [htag, String.toList_ofList]

theorem islandTag_eq_cons : ∃ rest, islandTag.toList = '<' :: rest ∧ '<' ∉ rest := by
  obtain ⟨chars, htag, -, -, hhead, htail⟩ := exists_islandTag_eq
  refine ⟨chars.tail, ?_, htail⟩
  rw [htag, String.toList_ofList]
  exact List.eq_cons_of_mem_head? hhead

/-- The tag of the island stands in the page once. -/
theorem eq_of_islandTag {title data : String} (htitle : isPlain title.toList)
    (hdata : '<' ∉ data.toList) {left right : List Char}
    (h : (render (viewerText title data)).toList = left ++ (islandTag.toList ++ right)) :
    right = data.toList ++ (String.join viewerScript).toList := by
  obtain ⟨rest, htag, hrest⟩ := islandTag_eq_cons
  have hbefore := isClear_append (isPlain_iff.mp isPlain_viewerHead).2
    (isClear_append (isPlain_iff.mp htitle).2
      (isClear_append (isPlain_iff.mp isPlain_viewerHud).2
        (isClear_append (isPlain_iff.mp htitle).2 (isPlain_iff.mp isPlain_viewerHint).2)))
  have hafter := isClear_append (isClear_of_notMem hdata) (isPlain_iff.mp isPlain_viewerScript).2
  rw [toList_viewerText] at h
  apply And.right
  apply eq_of_occurs htag hrest (isClear_of_start islandTag_starts hbefore)
    (isClear_of_start islandTag_starts hafter)
  simpa only [List.append_assoc] using h

/-- The page is the template with one island, which holds no angle bracket and decodes to
what the node-link text decodes to. The strings of the graph are arbitrary; the library
is only asked to print JSON. -/
theorem renderHtml_island {serde : SerdeJson} {g : Graph} {json : String}
    (hserde : serde.PrintsJson (nodeLinkEnvelope g)) (hjson : serde.toNodeLink g = .ok json) :
    ∃ island, renderHtml serde g = .ok (render (viewerText (viewerTitle g) island)) ∧
      '<' ∉ island.toList ∧ JsonText.decode island.toList = JsonText.decode json.toList ∧
      ∀ left right, (render (viewerText (viewerTitle g) island)).toList =
          left ++ (islandTag.toList ++ right) →
        right = island.toList ++ (String.join viewerScript).toList := by
  refine ⟨safeJson json, ?_, notMem_safeJson json, ?_, ?_⟩
  · rw [renderHtml_eq, hjson]
    rfl
  · apply decode_safeJson
    rw [SerdeJson.toNodeLink] at hjson
    cases hprint : serde.toStringPretty (nodeLinkEnvelope g) with
    | error e =>
        rw [hprint] at hjson
        cases hjson
    | ok text =>
        rw [hprint] at hjson
        obtain rfl := Except.ok.inj hjson
        exact hserde text hprint
  · intro left right h
    exact eq_of_islandTag (isPlain_viewerTitle g) (notMem_safeJson json) h

/-- A library that prints one value, given its text. -/
def SerdeJson.printing (text : String) : SerdeJson where
  toStringPretty _ := .ok text
  fromStr _ := .error "expected value at line 1 column 1"

theorem SerdeJson.printsJson_printing {text : String} {chars : List Char}
    (htext : text = String.ofList chars) (h : (JsonText.decode chars).isSome)
    (value : JsonValue) : (SerdeJson.printing text).PrintsJson value := by
  intro text' hprint
  obtain rfl := Except.ok.inj hprint
  rwa [htext, String.toList_ofList]

/-- A label that closes a script, opens a comment and names both placeholders, with a
backslash before an angle bracket. -/
def breakoutGraph : Graph := { Graph.new with
  nodes := [⟨⟨1⟩, "</script><!--\\<__TITLE__ \"__GRAPH_DATA__\"", "a\\b.rs", ⟨0, 10, 7, 9⟩⟩] }

def breakoutJson : String :=
"\x7b
  \"directed\": true,
  \"graph\": \x7b
    \"schema_version\": \"habitat-graph.graph.v0\"
  \x7d,
  \"links\": [],
  \"multigraph\": false,
  \"nodes\": [
    \x7b
      \"community\": null,
      \"id\": 1,
      \"label\": \"</script><!--\\\\<__TITLE__ \\\"__GRAPH_DATA__\\\"\",
      \"source_file\": \"a\\\\b.rs\",
      \"source_location\": \"L7\"
    \x7d
  ]
\x7d"

set_option maxRecDepth 4000 in
theorem renderHtml_island_breakout :
    ∃ island, renderHtml (SerdeJson.printing breakoutJson) breakoutGraph =
        .ok (render (viewerText (viewerTitle breakoutGraph) island)) ∧
      '<' ∉ island.toList ∧
      JsonText.decode island.toList = JsonText.decode breakoutJson.toList ∧
      ∀ left right, (render (viewerText (viewerTitle breakoutGraph) island)).toList =
          left ++ (islandTag.toList ++ right) →
        right = island.toList ++ (String.join viewerScript).toList :=
  renderHtml_island (SerdeJson.printsJson_printing rfl (by decide +kernel) _) rfl

end HabitatGraph
