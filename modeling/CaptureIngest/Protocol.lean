import CaptureIngest.Encoding

/-!
# Protocols

The record families of the capture format, a closed set. The names of a protocol's capture
files, of its bus topic and of its definition grew apart over the years: the two Citrix families
changed places, and row-binary SQL goes under `databases`. Each of the three is therefore a
table of its own, and not one rule.
-/

namespace CaptureIngest

/-- A family of capture records. -/
inductive Protocol
  | tcp | udp | icmp | otherIp | nonIp | dns | http
  /-- Citrix, a record per channel. -/
  | citrix
  /-- Citrix, a record per session without its channels. -/
  | citrixChanless
  | smb | sql | voip | tls
  deriving DecidableEq, Repr, Inhabited

namespace Protocol

/-- Every protocol, in the order of the registry and of a full generation. -/
def all : List Protocol :=
  [tcp, udp, icmp, otherIp, nonIp, dns, http, citrix, citrixChanless, smb, sql, voip, tls]

theorem mem_all (p : Protocol) : p ∈ all := by
  cases p <;> decide

/-- Position in the order of protocols. -/
def rank (p : Protocol) : Nat :=
  all.idxOf p

/-- The name under which a protocol is configured and shown. -/
def name : Protocol → String
  | tcp => "tcp"
  | udp => "udp"
  | icmp => "icmp"
  | otherIp => "other_ip"
  | nonIp => "non_ip"
  | dns => "dns"
  | http => "http"
  | citrix => "citrix"
  | citrixChanless => "citrix_chanless"
  | smb => "smb"
  | sql => "sql"
  | voip => "voip"
  | tls => "tls"

/-- The name for human readers. -/
def title : Protocol → String
  | tcp => "TCP"
  | udp => "UDP"
  | icmp => "ICMP"
  | otherIp => "Other IP"
  | nonIp => "Non-IP"
  | dns => "DNS"
  | http => "HTTP"
  | citrix => "Citrix (channels)"
  | citrixChanless => "Citrix (no channels)"
  | smb => "SMB"
  | sql => "SQL"
  | voip => "VoIP"
  | tls => "TLS"

/-- A protocol name as it is looked up: trimmed, in lower case, hyphens as underscores. -/
def lookupKey (s : String) : String :=
  (Text.nameKey s).map fun c => if c = '-' then '_' else c

/-- The protocol that a text names. -/
def ofText? (s : String) : Option Protocol :=
  all.find? fun p => p.name == lookupKey s

/-! ## The three naming tables -/

/-- The token in the names of a protocol's capture files, and the name of its layout file. -/
def fileToken (p : Protocol) (e : Encoding) : String :=
  match p, e with
  | citrix, .rowBinary => "citrix_channels"
  | citrixChanless, .rowBinary => "citrix"
  | sql, .rowBinary => "databases"
  | p, _ => p.name

/-- The last segment of a protocol's topic. -/
def topicToken (p : Protocol) (e : Encoding) : String :=
  match p, e with
  | citrix, _ => "citrix_channels"
  | citrixChanless, _ => "citrix"
  | sql, .rowBinary => "databases"
  | p, _ => p.name

/-- The name of a protocol's definition, which may need quotes where it is written. -/
def definitionName (p : Protocol) (e : Encoding) : String :=
  match e, p with
  | .csv, otherIp => "other-ip"
  | .csv, nonIp => "non-ip"
  | .csv, p => p.name
  | .rowBinary, otherIp => "other-ip_ext"
  | .rowBinary, nonIp => "non-ip_ext"
  | .rowBinary, citrix => "citrix_channels_ext"
  | .rowBinary, citrixChanless => "citrix_ext"
  | .rowBinary, tcp => "tcp_ext"
  | .rowBinary, udp => "udp_ext"
  | .rowBinary, icmp => "icmp_ext"
  | .rowBinary, dns => "dns_ext"
  | .rowBinary, http => "http_ext"
  | .rowBinary, smb => "smb_ext"
  | .rowBinary, sql => "sql_ext"
  | .rowBinary, voip => "voip_ext"
  | .rowBinary, tls => "tls_ext"

/-- No two pairs of protocol and encoding share a definition name. -/
theorem definitionName_inj {p q : Protocol} {e f : Encoding}
    (h : p.definitionName e = q.definitionName f) : p = q ∧ e = f := by
  have table : ∀ p ∈ all, ∀ e ∈ Encoding.all, ∀ q ∈ all, ∀ f ∈ Encoding.all,
      p.definitionName e = q.definitionName f → p = q ∧ e = f := by decide
  exact table p p.mem_all e e.mem_all q q.mem_all f f.mem_all h

end Protocol

end CaptureIngest
