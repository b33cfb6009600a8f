import Patchbay.Group.Config

/-!
Workflow documents as the editor stores them. One type holds both forms: the compact form keeps
sequencing in `flowLinks` and in lists of its own on the nodes, the runtime form as ordinary slots and
links of type `FLOW`.
-/
set_option autoImplicit false

namespace Patchbay

structure DocumentExtra where
  groups : Table GroupConfig
  rest : Fields
deriving DecidableEq

structure Document where
  lastNodeId : Option Int64
  lastLinkId : Option LinkId
  nodes : List Node
  links : List Link
  flowLinks : Option (List FlowLink)
  extra : DocumentExtra
  supportsFlow : Bool
  rest : Fields
deriving DecidableEq

def DocumentExtra.shape : Shape DocumentExtra where
  title := "struct Extra"
  blank := ⟨.empty, []⟩
  fields := [.unlessEmpty "groupNodes" GroupConfig.codec (·.groups) ({ · with groups := · })]
  surplus := .kept (·.rest) ({ · with rest := · })

namespace Document

def empty : Document := ⟨none, none, [], [], none, ⟨.empty, []⟩, false, []⟩

def shape : Shape Document where
  title := "struct Document"
  blank := empty
  fields := [
    .optional "last_node_id" .int64 (·.lastNodeId) ({ · with lastNodeId := · }),
    .optional "last_link_id" .linkId (·.lastLinkId) ({ · with lastLinkId := · }),
    .needed "nodes" (.list Node.codec) (·.nodes) ({ · with nodes := · }),
    .defaulted "links" (.list Link.codec) (·.links) ({ · with links := · }),
    .optional "flow_links" (.list FlowLink.codec) (·.flowLinks) ({ · with flowLinks := · }),
    .defaulted "extra" DocumentExtra.shape.codec (·.extra) ({ · with extra := · }),
    .defaulted "support_flow_control" .bool (·.supportsFlow) ({ · with supportsFlow := · })]
  surplus := .kept (·.rest) ({ · with rest := · })

def codec : Codec Document := shape.codec

def toJson (doc : Document) : Json := codec.write doc

/-- The stored text. -/
def render (doc : Document) : String := doc.toJson.pretty

/-- A document in runtime form with nothing but nodes and links. -/
def ofGraph (nodes : List Node) (links : List Link) : Document :=
  { empty with nodes := nodes, links := links, lastLinkId := (links.map (·.id)).max? }

def flowLinkList (doc : Document) : List FlowLink := doc.flowLinks.getD []

/-- The ids that links carry, stored sequencing links included. -/
def linkIds (doc : Document) : List LinkId :=
  doc.links.map (·.id) ++ doc.flowLinkList.map (·.id)

/-- A link id above every id in use, as far as there is one. -/
def nextLinkId (doc : Document) : LinkId :=
  match (doc.linkIds ++ doc.lastLinkId.toList).max? with
  | none => 0
  | some largest => largest.raise 1

def node? (doc : Document) (id : NodeId) : Option Node := doc.nodes.find? (·.id == id)

/-- Some part of the document is in compact form. -/
def hasCompactFlow (doc : Document) : Bool :=
  doc.flowLinks.isSome || doc.nodes.any fun node => node.flowInputs.isSome || node.flowOutputs.isSome

end Document
end Patchbay
