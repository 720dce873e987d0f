import CaptureIngest.Layout.V30.Flow
import CaptureIngest.Layout.V30.Session
import CaptureIngest.Layout.V30.Transaction

/-!
# The layouts of version v30

The layout of each protocol's records in version v30, which is built in. The same layout serves
both encodings.
-/

namespace CaptureIngest

/-- The fields of a protocol's v30 records, in their order. -/
def Protocol.v30Fields : Protocol → List Field
  | tcp => Layout.V30.tcp
  | udp => Layout.V30.udp
  | icmp => Layout.V30.icmp
  | otherIp => Layout.V30.otherIp
  | nonIp => Layout.V30.nonIp
  | dns => Layout.V30.dns
  | http => Layout.V30.http
  | citrix => Layout.V30.citrix
  | citrixChanless => Layout.V30.citrixChanless
  | smb => Layout.V30.smb
  | sql => Layout.V30.sql
  | voip => Layout.V30.voip
  | tls => Layout.V30.tls

end CaptureIngest
