import WhistleDrivenRobot.Link
import WhistleDrivenRobot.Builds
import WhistleDrivenRobot.FillOrder
import WhistleDrivenRobot.Chunks
import WhistleDrivenRobot.Sessions
import WhistleDrivenRobot.Pass
import WhistleDrivenRobot.Outputs
import WhistleDrivenRobot.Packing
import WhistleDrivenRobot.Framing
import WhistleDrivenRobot.LineBuffer
import WhistleDrivenRobot.Residues
import WhistleDrivenRobot.Boards
import WhistleDrivenRobot.Wires
import WhistleDrivenRobot.Sleeping
import WhistleDrivenRobot.Turns
