import HomeControl.Lib.StepSystem
import HomeControl.Lib.Memory
import HomeControl.Lib.LastWrite
import HomeControl.Lib.Fifo
import HomeControl.Lib.Segments
import HomeControl.Lib.History
import HomeControl.Lib.Runs
import HomeControl.Lib.Bytes
import HomeControl.Lib.Raises
import HomeControl.Lib.Threads
import HomeControl.Lib.Rounding
import HomeControl.Lib.LinkedList
import HomeControl.Lib.Text
import HomeControl.Lib.Numeral
import HomeControl.Lib.Interleaving
import HomeControl.Lib.Work
import HomeControl.Lib.SignedLog
import HomeControl.Lib.Block
import HomeControl.Gdevice
import HomeControl.Loader
import HomeControl.Sections
import HomeControl.DevName
import HomeControl.Frame
import HomeControl.House
import HomeControl.HandldDevice
import HomeControl.Effect
import HomeControl.Opening
import HomeControl.Face
import HomeControl.ParRetfunc
import HomeControl.Threshold
import HomeControl.World
import HomeControl.Isolation
import HomeControl.Announcement
import HomeControl.DoorLock
import HomeControl.Relock
import HomeControl.RecordedStatus
import HomeControl.Configured
import HomeControl.Serial
import HomeControl.VoiceInterface
import HomeControl.SocketInterface
import HomeControl.SmokeInterface
import HomeControl.AllClear
import HomeControl.Pipeline
import HomeControl.Capacity
import HomeControl.ReceiveInterface
import HomeControl.Descriptors
import HomeControl.Home
import HomeControl.Alarm
import HomeControl.Shutdown
import HomeControl.Registration
import HomeControl.Ini
import HomeControl.IniCall
import HomeControl.IniGrammar
import HomeControl.IniFile
import HomeControl.DeviceFile
import HomeControl.Delivery
import HomeControl.Rest
import HomeControl.Embedding
import HomeControl.Requested
import HomeControl.Display
import HomeControl.Spoken
import HomeControl.SerialLine
import HomeControl.IniBuffer
import HomeControl.IniStream
